import RtThread.Sfud

/-! What sfud does over a bus that works: its calls come back with success. -/
namespace RtThread.Sfud
open NorFlash

variable {k : Kind}

/-- Every transfer goes through, and the chip has always come to an end before the next one. -/
def Works (b : Bus k) : Prop := ∀ i, (b.transfers i).ok = true ∧ (b.transfers i).done = true

variable {b b' : Bus k} {f : Flash} {result : SfudErr} {bits : UInt8} {bytes frame data : List UInt8}
  {addr size n turns writeGran : Nat}

end RtThread.Sfud
