import ModelSearch.Theory.Linear
import ModelSearch.Theory.Scripted

/-!
# Theories side by side

Atoms of two theories may occur in one formula: each keeps its own evaluation
and its own hook.
-/

namespace ModelSearch

instance {σ τ : Type} [TheoryAtom σ] [TheoryAtom τ] : TheoryAtom (σ ⊕ τ) where
  support := Sum.elim TheoryAtom.support TheoryAtom.support
  evaluate := Sum.elim TheoryAtom.evaluate TheoryAtom.evaluate
  negate := Sum.map TheoryAtom.negate TheoryAtom.negate
  render := Sum.elim TheoryAtom.render TheoryAtom.render
  hook := Sum.elim TheoryAtom.hook TheoryAtom.hook

/-- Linear constraints over the rationals and scripted Boolean atoms. -/
abbrev MixedAtom := LinearConstraint ⊕ ScriptedAtom

end ModelSearch
