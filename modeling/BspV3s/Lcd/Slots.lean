import Mathlib.Data.BitVec

/-!
# Slots — where the frame buffers lie

The display scans memory from the end of the heap on.  There are two slots behind it, one for each
frame buffer, and the page table has an attribute of its own for them.
-/

namespace BspV3s

namespace Lcd

abbrev U32 := BitVec 32

def CONFIG_SYS_SDRAM_BASE : U32 := 0x40000000

def RT_HW_HEAP_END : U32 := 0x43800000

def SLOT_SIZE : U32 := 0x400000

/-- The addresses of the two frame buffers. -/
def fbAddresses : U32 × U32 := (RT_HW_HEAP_END, RT_HW_HEAP_END + SLOT_SIZE)

end Lcd

end BspV3s
