/-
# Texts that are answered by an error of their own

Whatever is wrong with the text of an artifact is reported as an artifact error, with one exception:
a whole number of too many digits, anywhere in the text where a value may stand, is reported by its
length alone.  It makes no difference whether anything would have been made of the number; a key
that is ignored will do.
-/
import SchemaLang.Artifact
import SchemaLang.Proofs.Json.LongNumerals

namespace SchemaLang

open Text

/-- **Which texts are answered by a document or an artifact error.** -/
theorem deserialize_answered_iff (text : String) :
    ((∃ d, Document.deserialize text = .ok d) ∨
        ∃ e, Document.deserialize text = .error (.artifact e)) ↔
      ∀ ds, Json.IntegerDue text ds → ds.length ≤ maxDigits := by
  have hlong : ∀ {e : LongNumeral}, Json.read text = .error (.longNumeral e) →
      Document.deserialize text = .error (.longNumeral e) := by
    intro e h
    rw [Document.deserialize, h]
  constructor
  · intro h ds hdue
    by_contra hds
    have hread := Json.read_eq_longNumeral_iff.mpr ⟨ds, hdue, Nat.lt_of_not_le hds, rfl⟩
    rw [hlong hread] at h
    simp at h
  · intro h
    unfold Document.deserialize
    cases hread : Json.read text with
    | ok value =>
      cases hvalue : Document.ofArtifact value with
      | ok d => exact .inl ⟨d, by simp only [hvalue]; rfl⟩
      | error e => exact .inr ⟨e, by simp only [hvalue]; rfl⟩
    | error e =>
      cases e with
      | malformed e => exact .inr ⟨_, rfl⟩
      | longNumeral e =>
        obtain ⟨ds, hdue, hds, -⟩ := Json.read_eq_longNumeral_iff.mp hread
        exact absurd (h ds hdue) (Nat.not_le.mpr hds)

/-- What is behind the first value of `longExtra`. -/
def longExtraTail : String :=
  ",\"v\":\"1\",\"document\":\x7b\"kind\":\"document\",\"statements\":[]\x7d\x7d"

/-- An artifact of the empty document with one more key in front, whose value is a numeral of one
digit too many. -/
def longExtra : String :=
  "\x7b\"x\":" ++ String.ofList (List.replicate (maxDigits + 1) '1') ++ longExtraTail

/-- The artifact is neither read nor refused with an artifact error. -/
theorem deserialize_longExtra :
    Document.deserialize longExtra = .error (.longNumeral ⟨maxDigits + 1⟩) ∧
      ¬ ((∃ d, Document.deserialize longExtra = .ok d) ∨
        ∃ e, Document.deserialize longExtra = .error (.artifact e)) := by
  have hdue : Json.ValueDue "\x7b\"x\":".toList := by
    refine ⟨.value [.object [] "x"], trivial, fun behind => ?_⟩
    have hopen : ∀ cs, Json.step (.value []) '\x7b' cs = .ok (.members [], cs) := fun _ => rfl
    have htext : "\x7b\"x\":".toList ++ behind =
        '\x7b' :: (Json.writtenString "x" ++ ':' :: behind) := rfl
    rw [htext, Json.run_step (by decide) (hopen _), Json.run_members_first, Json.run_key]
  have hdigits : ∀ c ∈ '1' :: List.replicate maxDigits '1', c.isDigit := by
    intro c hc
    rw [← List.replicate_succ] at hc
    rw [List.eq_of_mem_replicate hc]
    decide
  have hends : Json.EndsNumber longExtraTail.toList := by
    intro c hc
    obtain rfl : ',' = c := Option.some.inj hc
    decide
  have hinteger : Json.IntegerDue longExtra ('1' :: List.replicate maxDigits '1') := by
    refine ⟨_, _, _, _, ?_, hdue, Json.takeNumber_digits (by decide) hdigits hends, rfl, rfl, rfl⟩
    simp only [longExtra, String.toList_append, String.toList_ofList, List.replicate_succ,
      List.append_assoc, List.cons_append]
  have hread : Json.read longExtra = .error (.longNumeral ⟨maxDigits + 1⟩) :=
    Json.read_eq_longNumeral_iff.mpr ⟨_, hinteger, by simp, by simp⟩
  have hanswer : Document.deserialize longExtra = .error (.longNumeral ⟨maxDigits + 1⟩) := by
    rw [Document.deserialize, hread]
  exact ⟨hanswer, by simp [hanswer]⟩

end SchemaLang
