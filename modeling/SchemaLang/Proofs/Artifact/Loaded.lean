/-
# What a loaded part was loaded from

A loader that succeeds has found everything that it asked for, and nothing else.  The lemmas here
say so for each of the ways in which loaders are put together, so that no later proof opens one:
the value of a key, the key that was left out, the items of a list in their order, the kind of an
object and the only keys that it can have, and the model that was chosen by a tag.
-/
import SchemaLang.Artifact.Checked

namespace SchemaLang.Json

variable {α : Type}

/-! ## 1. Members -/

theorem exists_of_required {ms : Members} {key : String}
    {load : (v : Json) → sizeOf v < sizeOf ms → Checked α} {a : α}
    (h : required ms key load = .valid a) :
    ∃ v hv, find? key ms = some v ∧ load v hv = .valid a := by
  cases hv : find? key ms with
  | none =>
    rw [required_of_not_find? hv] at h
    exact absurd h (by simp [Checked.issue, Checked.inside])
  | some v =>
    rw [required_of_find? hv] at h
    exact ⟨v, _, rfl, Checked.inside_eq_valid_iff.mp h⟩

theorem exists_of_defaulted {ms : Members} {key : String} {default : α}
    {load : (v : Json) → sizeOf v < sizeOf ms → Checked α} {a : α}
    (h : defaulted ms key default load = .valid a) :
    (find? key ms = none ∧ a = default) ∨ ∃ v hv, find? key ms = some v ∧ load v hv = .valid a := by
  cases hv : find? key ms with
  | none =>
    rw [defaulted_of_not_find? hv] at h
    exact .inl ⟨rfl, (Checked.valid.inj h).symm⟩
  | some v =>
    rw [defaulted_of_find? hv] at h
    obtain ⟨w, hw, hfind, hload⟩ := exists_of_required h
    exact .inr ⟨w, hw, hv.symm.trans hfind, hload⟩

/-- The kind is left out, or it is this one. -/
theorem kind_of_ofThisKind {ms : Members} {kind : Kind} {u : Unit}
    (h : ofThisKind ms kind = .valid u) :
    find? "kind" ms = none ∨ find? "kind" ms = some (.string kind.tag) := by
  rcases exists_of_defaulted h with ⟨hnone, -⟩ | ⟨v, _, hv, hload⟩
  · exact .inl hnone
  · right
    rw [hv]
    split at hload
    · split at hload
      · next htag => rw [htag]
      · exact absurd hload (by simp [Checked.issue])
    · exact absurd hload (by simp [Checked.issue])

theorem mem_of_onlyKeys {ms : Members} {known : List String} {u : Unit}
    (h : onlyKeys ms known = .valid u) : ∀ key ∈ ms.map Prod.fst, key ∈ known := by
  intro key hkey
  unfold onlyKeys at h
  split at h
  · next hnone =>
    have hknown := List.filter_eq_nil_iff.mp hnone key hkey
    simpa using hknown
  · exact absurd h (by simp)

/-! ## 2. Objects -/

/-- What a model has checked: the kind, the parts and the keys. -/
theorem exists_of_model {ms : Members} {kind : Kind} {keys : List String} {parts : Checked α}
    {a : α} (h : model ms kind keys parts = .valid a) :
    ofThisKind ms kind = .valid () ∧ parts = .valid a ∧
      ∀ key ∈ ms.map Prod.fst, key ∈ "kind" :: keys := by
  obtain ⟨f, u, hparts, honly, rfl⟩ := Checked.seq_eq_valid_iff.mp h
  obtain ⟨g, b, hg, rfl, rfl⟩ := Checked.seq_eq_valid_iff.mp hparts
  obtain ⟨u', hkind, rfl⟩ := Checked.map_eq_valid_iff.mp hg
  exact ⟨hkind, rfl, mem_of_onlyKeys honly⟩

theorem valid_of_model {ms : Members} {kind : Kind} {keys : List String} {parts : Checked α}
    {a : α} (h : model ms kind keys parts = .valid a) : parts = .valid a :=
  (exists_of_model h).2.1

theorem exists_of_asObject {v : Json} {load : Members → Checked α} {a : α}
    (h : asObject v load = .valid a) : ∃ ms, v = .object ms ∧ load ms = .valid a := by
  unfold asObject at h
  split at h
  · exact ⟨_, rfl, h⟩
  · exact absurd h (by simp [Checked.issue])

theorem exists_of_select {tag : String} {models : List (Kind × (Unit → Checked α))} {a : α}
    (h : select tag models = .valid a) : ∃ m ∈ models, m.1.tag = tag ∧ m.2 () = .valid a := by
  induction models with
  | nil => exact absurd h (by simp [select, Checked.issue])
  | cons m models ih =>
    obtain ⟨kind, load⟩ := m
    rw [select] at h
    split at h
    · next htag => exact ⟨_, List.mem_cons_self, htag, Checked.inside_eq_valid_iff.mp h⟩
    · obtain ⟨m, hm, hload⟩ := ih h
      exact ⟨m, List.mem_cons_of_mem _ hm, hload⟩

/-- A value that comes in several kinds is an object that tells its kind. -/
theorem exists_of_asTagged {v : Json}
    {models : (ms : Members) → sizeOf ms < sizeOf v → List (Kind × (Unit → Checked α))} {a : α}
    (h : asTagged v models = .valid a) :
    ∃ ms hms, v = .object ms ∧
      ∃ m ∈ models ms hms, find? "kind" ms = some (.string m.1.tag) ∧ m.2 () = .valid a := by
  unfold asTagged at h
  split at h
  · next ms models =>
    split at h
    · exact absurd h (by simp [Checked.issue])
    · next tag htag =>
      obtain ⟨m, hm, rfl, hload⟩ := exists_of_select h
      exact ⟨ms, _, rfl, m, hm, htag, hload⟩
    · exact absurd h (by simp [Checked.issue])
  · exact absurd h (by simp [Checked.issue])

/-! ## 3. Lists -/

theorem exists_of_eachFrom {items : List Json} {i : Nat}
    {load : (v : Json) → sizeOf v < sizeOf items → Checked α} {xs : List α}
    (h : eachFrom i items load = .valid xs) :
    items.length = xs.length ∧
      ∀ (j : Nat) w x, items[j]? = some w → xs[j]? = some x → ∃ hw, load w hw = .valid x := by
  induction items generalizing i xs with
  | nil =>
    obtain rfl := Checked.valid.inj h
    exact ⟨rfl, by simp⟩
  | cons v vs ih =>
    obtain ⟨f, ys, hf, hys, rfl⟩ := Checked.seq_eq_valid_iff.mp h
    obtain ⟨y, hy, rfl⟩ := Checked.map_eq_valid_iff.mp hf
    obtain ⟨hlength, hitems⟩ := ih hys
    refine ⟨by simp [hlength], fun j w x hw hx => ?_⟩
    cases j with
    | zero =>
      obtain rfl : v = w := by simpa using hw
      obtain rfl : y = x := by simpa using hx
      exact ⟨_, Checked.inside_eq_valid_iff.mp hy⟩
    | succ j =>
      obtain ⟨_, hload⟩ := hitems j w x (by simpa using hw) (by simpa using hx)
      exact ⟨_, hload⟩

/-- A loaded list has the items of an array, each loaded in its place. -/
theorem exists_of_asList {v : Json} {load : (w : Json) → sizeOf w < sizeOf v → Checked α}
    {xs : List α} (h : asList v load = .valid xs) :
    ∃ items, v = .array items ∧ items.length = xs.length ∧
      ∀ (j : Nat) w x, items[j]? = some w → xs[j]? = some x → ∃ hw, load w hw = .valid x := by
  unfold asList at h
  split at h
  · next items load =>
    obtain ⟨hlength, hitems⟩ := exists_of_eachFrom h
    refine ⟨items, rfl, hlength, fun j w x hw hx => ?_⟩
    obtain ⟨_, hload⟩ := hitems j w x hw hx
    exact ⟨_, hload⟩
  · exact absurd h (by simp [Checked.issue])

theorem exists_of_mem_asList {v : Json} {load : (w : Json) → sizeOf w < sizeOf v → Checked α}
    {xs : List α} (h : asList v load = .valid xs) :
    ∃ items, v = .array items ∧ ∀ x ∈ xs, ∃ w ∈ items, ∃ hw, load w hw = .valid x := by
  obtain ⟨items, rfl, hlength, hitems⟩ := exists_of_asList h
  refine ⟨items, rfl, fun x hx => ?_⟩
  obtain ⟨j, hj, rfl⟩ := List.mem_iff_getElem.mp hx
  rw [← hlength] at hj
  exact ⟨items[j], List.getElem_mem hj, hitems j _ _ (List.getElem?_eq_getElem hj) (by simp)⟩

end SchemaLang.Json
