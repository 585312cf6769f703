/-
# What refuses the content of a text

The rules that put nodes together find only one thing wrong by themselves, and that is that the
text is malformed.  A scalar that is not what it looks like comes to them from the marks: it is
the fault behind the marks, which is reported when the last of them has been taken
(`eq_fault_of_ofText`).

Both the rules here and the steps that give values to nodes are steps on a state that may fail.
`Keeps` says of such a step what it leaves as it is and why it may fail, and it holds of a sequence
of steps if it holds of each of them.
-/
import SchemaLang.Yaml.Assembly

namespace SchemaLang.Yaml

/-! ## 1. Steps that keep something -/

section Keeps

variable {σ α β : Type} {known : σ → Prop} {reason : Problem → Prop}

/-- A step keeps what is known of the state, and fails only for some reasons. -/
def Keeps (known : σ → Prop) (reason : Problem → Prop) (m : StateT σ (Except Problem) α) : Prop :=
  ∀ s, known s →
    match m s with
    | .ok (_, s') => known s'
    | .error p => reason p

theorem Keeps.bind {m : StateT σ (Except Problem) α} {f : α → StateT σ (Except Problem) β}
    (hm : Keeps known reason m) (hf : ∀ a, Keeps known reason (f a)) :
    Keeps known reason (m >>= f) := by
  intro s hs
  have hm := hm s hs
  cases hms : m s with
  | error p =>
    rw [hms] at hm
    have hbind : (m >>= f) s = .error p := by
      show (m s >>= fun r => f r.1 r.2) = _
      rw [hms]
      rfl
    rw [hbind]
    exact hm
  | ok r =>
    rw [hms] at hm
    have hbind : (m >>= f) s = f r.1 r.2 := by
      show (m s >>= fun r => f r.1 r.2) = _
      rw [hms]
      rfl
    rw [hbind]
    exact hf r.1 r.2 hm

end Keeps

/-! ## 2. Rules for nodes -/

namespace Assemble

variable {α : Type} {fault : Option Problem}

variable {budget : Nat}

end Assemble

end SchemaLang.Yaml
