import Prose.Diagnostic.Render
import Prose.Proofs.Diagnostic.Positions

/-!
The carets of a label. A label is shown with the line that it starts on and with
carets below it. Both rows begin with a margin, which takes as many characters in
the one as in the other; so if the label covers a part of one line, the part and
the carets stand in the same columns.
-/

namespace Prose

open Text

namespace Diagnostic

end Diagnostic

/-! ### A part of a line -/

namespace Span

variable {source : List Char} {span : Span}

namespace CutsOut

variable {front left part right rest : List Char}

end CutsOut

end Span

namespace Diagnostic

end Diagnostic

end Prose
