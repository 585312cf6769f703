/-
# The order of keys decides nothing

Two interchange values may differ in nothing but the order in which the keys of their objects came
up, at any depth (`Json.SameUpToOrder`).  Loaders look keys up and never ask for the first one, so
they answer such values alike (`Checked.Same`): with the same part, or with the same issues, which
may come in another order where several keys are unknown.

The combinators keep this, each for itself, and the loaders are put together from them.  So two
artifacts that differ in this way only hold the same document, or they fail at the same check
(`Document.deserialize_sameUpToOrder`).
-/
import Mathlib.Data.List.Forall2
import Mathlib.Data.List.Nodup
import SchemaLang.Artifact
import SchemaLang.Proofs.Json.RoundTrip

namespace SchemaLang

open Json

variable {α β : Type}

/-! ## 1. Values up to the order of their keys -/

namespace Json

/-- The values are equal but for the order of the keys in objects, at any depth. -/
inductive SameUpToOrder : Json → Json → Prop
  | null : SameUpToOrder null null
  | bool (b : Bool) : SameUpToOrder (bool b) (bool b)
  | int (n : Int) : SameUpToOrder (int n) (int n)
  | float (x : Binary64) : SameUpToOrder (float x) (float x)
  | string (s : String) : SameUpToOrder (string s) (string s)
  | array {vs ws : List Json} (hitems : List.Forall₂ SameUpToOrder vs ws) :
      SameUpToOrder (array vs) (array ws)
  | object {ms ns : Members} (hkeys : (ms.map Prod.fst).Perm (ns.map Prod.fst))
      (hmembers : ∀ key v w, find? key ms = some v → find? key ns = some w → SameUpToOrder v w) :
      SameUpToOrder (object ms) (object ns)

/-- The members of two objects are the same but for the order of the keys. -/
abbrev SameMembers (ms ns : Members) : Prop := SameUpToOrder (object ms) (object ns)

variable {v w : Json} {ms ns : Members}

mutual

theorem SameUpToOrder.refl (v : Json) : SameUpToOrder v v := by
  cases v with
  | null => exact .null
  | bool b => exact .bool b
  | int n => exact .int n
  | float x => exact .float x
  | string s => exact .string s
  | array vs => exact .array (SameUpToOrder.refl_items vs)
  | object ms =>
    refine .object (.refl _) fun key v w hv hw => ?_
    obtain rfl := Option.some.inj (hv.symm.trans hw)
    have hsize := sizeOf_lt_of_find? hv
    exact SameUpToOrder.refl v
termination_by sizeOf v

theorem SameUpToOrder.refl_items (vs : List Json) : List.Forall₂ SameUpToOrder vs vs := by
  cases vs with
  | nil => exact .nil
  | cons v vs => exact .cons (SameUpToOrder.refl v) (SameUpToOrder.refl_items vs)
termination_by sizeOf vs

end

theorem mem_of_find? {key : String} (h : find? key ms = some v) : (key, v) ∈ ms := by
  induction ms with
  | nil => exact absurd h (by simp)
  | cons m ms ih =>
    rw [find?_cons] at h
    split at h
    · next hkey =>
      obtain rfl := Option.some.inj h
      exact hkey ▸ List.mem_cons_self
    · exact List.mem_cons_of_mem _ (ih h)

/-- Members of the same keys in the same order, with values that are the same but for the order of
keys inside of them. -/
abbrev SameInside (ms ns : Members) : Prop :=
  List.Forall₂ (fun m n => m.1 = n.1 ∧ m.2.SameUpToOrder n.2) ms ns

theorem SameInside.map_fst (h : SameInside ms ns) : ms.map Prod.fst = ns.map Prod.fst := by
  induction h with
  | nil => rfl
  | cons hm _ ih => rw [List.map_cons, List.map_cons, hm.1, ih]

theorem SameInside.exists_find? {key : String} (h : SameInside ms ns)
    (hv : find? key ms = some v) : ∃ w, find? key ns = some w ∧ v.SameUpToOrder w := by
  induction h with
  | nil => exact absurd hv (by simp)
  | @cons m n _ _ hm _ ih =>
    rw [find?_cons] at hv ⊢
    rw [← hm.1]
    split at hv
    · next hkey =>
      obtain rfl := Option.some.inj hv
      exact ⟨n.2, if_pos hkey, hm.2⟩
    · next hkey =>
      rw [if_neg hkey]
      exact ih hv

/-- Whatever order the members are brought to, they are the same: no key occurs twice. -/
theorem SameInside.sameMembers {ns' : Members} (h : SameInside ms ns) (hperm : ns.Perm ns')
    (hnodup : (ms.map Prod.fst).Nodup) : SameMembers ms ns' := by
  rw [h.map_fst] at hnodup
  refine .object (h.map_fst ▸ hperm.map Prod.fst) fun key v w hv hw => ?_
  obtain ⟨w', hw', hsame⟩ := h.exists_find? hv
  have hmem : (key, w) ∈ ns := hperm.mem_iff.mpr (mem_of_find? hw)
  obtain ⟨-, rfl⟩ := Prod.mk.inj (List.inj_on_of_nodup_map hnodup (mem_of_find? hw') hmem rfl)
  exact hsame

theorem SameUpToOrder.find?_cases (h : SameMembers ms ns) (key : String) :
    (find? key ms = none ∧ find? key ns = none) ∨
      ∃ v w, find? key ms = some v ∧ find? key ns = some w ∧ v.SameUpToOrder w := by
  cases h with
  | object hkeys hmembers =>
    cases hv : find? key ms with
    | none =>
      cases hw : find? key ns with
      | none => exact .inl ⟨rfl, rfl⟩
      | some w =>
        obtain ⟨v, hv'⟩ := exists_find?_of_mem (hkeys.mem_iff.mpr (mem_keys_of_find? hw))
        exact absurd (hv.symm.trans hv') (by simp)
    | some v =>
      obtain ⟨w, hw⟩ := exists_find?_of_mem (hkeys.mem_iff.mp (mem_keys_of_find? hv))
      exact .inr ⟨v, w, rfl, hw, hmembers key v w hv hw⟩

end Json

/-! ## 2. Checks that answer alike -/

namespace Checked

/-- Both checks give the same value, or both have the same issues in some order. -/
inductive Same : Checked α → Checked α → Prop
  | valid (a : α) : Same (valid a) (valid a)
  | invalid {is js : List Issue} (h : is.Perm js) : Same (invalid is) (invalid js)

theorem Same.issue (kind : IssueKind) : Same (issue kind : Checked α) (issue kind) :=
  .invalid (.refl _)

variable {x y : Checked α}

theorem Same.map (f : α → β) (h : x.Same y) : (x.map f).Same (y.map f) := by
  cases h with
  | valid a => exact .valid (f a)
  | invalid h => exact .invalid h

theorem Same.seq {f g : Checked (α → β)} (hf : f.Same g) (hx : x.Same y) :
    (f.seq x).Same (g.seq y) := by
  cases hf with
  | valid f =>
    cases hx with
    | valid a => exact .valid (f a)
    | invalid h => exact .invalid h
  | invalid h =>
    cases hx with
    | valid a => exact .invalid h
    | invalid h' => exact .invalid (h.append h')

theorem Same.inside (step : PlaceStep) (h : x.Same y) : (x.inside step).Same (y.inside step) := by
  cases h with
  | valid a => exact .valid a
  | invalid h => exact .invalid (h.map _)

end Checked

/-! ## 3. Parts of a value -/

namespace Json

variable {v w : Json} {ms ns : Members} {key : String}

/-- A loader answers alike whatever the order of keys. -/
def IgnoresOrder (load : Json → Checked α) : Prop :=
  ∀ ⦃v w : Json⦄, v.SameUpToOrder w → (load v).Same (load w)

/-- A loader of members answers alike whatever the order of keys. -/
def MembersIgnoreOrder (load : Members → Checked α) : Prop :=
  ∀ ⦃ms ns : Members⦄, SameMembers ms ns → (load ms).Same (load ns)

/-- A loader does so that takes no list and no object apart. -/
theorem ignoresOrder_of_scalar {load : Json → Checked α}
    (hlists : ∀ vs ws, load (.array vs) = load (.array ws))
    (hobjects : ∀ ms ns, load (.object ms) = load (.object ns)) : IgnoresOrder load := by
  have hrefl (x : Checked α) : x.Same x := by
    cases x with
    | valid a => exact .valid a
    | invalid is => exact .invalid (.refl is)
  intro v w h
  cases h with
  | array => exact hlists _ _ ▸ hrefl _
  | object => exact hobjects _ _ ▸ hrefl _
  | null | bool | int | float | string => exact hrefl _

theorem ignoresOrder_asObject {load : Members → Checked α} (hload : MembersIgnoreOrder load) :
    IgnoresOrder fun v => asObject v load := by
  intro v w h
  cases h with
  | object hkeys hmembers => exact hload (.object hkeys hmembers)
  | null | bool | int | float | string | array => exact .issue .notAnObject

theorem same_eachFrom {vs ws : List Json} (i : Nat)
    {load : (v : Json) → sizeOf v < sizeOf vs → Checked α}
    {load' : (w : Json) → sizeOf w < sizeOf ws → Checked α}
    (h : List.Forall₂ SameUpToOrder vs ws)
    (hload : ∀ v w hv hw, v.SameUpToOrder w → (load v hv).Same (load' w hw)) :
    (eachFrom i vs load).Same (eachFrom i ws load') := by
  induction h generalizing i with
  | nil => exact .valid []
  | cons hitem _ ih =>
    refine (((hload _ _ _ _ hitem).inside (.index i)).map List.cons).seq (ih (i + 1) ?_)
    exact fun v w hv hw => hload v w _ _

namespace SameUpToOrder

theorem same_asList {load : (u : Json) → sizeOf u < sizeOf v → Checked α}
    {load' : (u : Json) → sizeOf u < sizeOf w → Checked α} (h : v.SameUpToOrder w)
    (hload : ∀ t u ht hu, t.SameUpToOrder u → (load t ht).Same (load' u hu)) :
    (asList v load).Same (asList w load') := by
  cases h with
  | array hitems => exact same_eachFrom 0 hitems fun t u _ _ => hload t u _ _
  | null | bool | int | float | string | object => exact .issue .notAList

/-- Two choices of the same kind answer alike. -/
structure SameChoice (m m' : Kind × (Unit → Checked α)) : Prop where
  kind : m.1 = m'.1
  load : (m.2 ()).Same (m'.2 ())

theorem same_select (tag : String) {models models' : List (Kind × (Unit → Checked α))}
    (h : List.Forall₂ SameChoice models models') :
    (select tag models).Same (select tag models') := by
  induction h with
  | nil => exact .issue .unknownKind
  | cons hchoice _ ih =>
    rw [select, select, hchoice.kind]
    split
    · exact hchoice.load.inside (.key tag)
    · exact ih

/-- The kind of an object is looked up like any other key. -/
theorem same_asTagged
    {models : (ms : Members) → sizeOf ms < sizeOf v → List (Kind × (Unit → Checked α))}
    {models' : (ms : Members) → sizeOf ms < sizeOf w → List (Kind × (Unit → Checked α))}
    (h : v.SameUpToOrder w)
    (hmodels : ∀ ms ns hms hns, SameMembers ms ns →
      List.Forall₂ SameChoice (models ms hms) (models' ns hns)) :
    (asTagged v models).Same (asTagged w models') := by
  cases h with
  | @object ms ns hkeys hmembers =>
    have hsame : SameMembers ms ns := .object hkeys hmembers
    simp only [asTagged]
    rcases hsame.find?_cases "kind" with ⟨hms, hns⟩ | ⟨u, u', hu, hu', huu'⟩
    · rw [hms, hns]
      exact .issue .noKind
    · rw [hu, hu']
      cases huu' with
      | string tag => exact same_select tag (hmodels ms ns _ _ hsame)
      | null | bool | int | float | array | object => exact .issue .unknownKind
  | null | bool | int | float | string | array => exact .issue .notATaggedObject

/-! ## 4. Keys of an object -/

variable {load : (v : Json) → sizeOf v < sizeOf ms → Checked α}
  {load' : (v : Json) → sizeOf v < sizeOf ns → Checked α}

theorem same_required (h : SameMembers ms ns) (key : String)
    (hload : ∀ v w hv hw, v.SameUpToOrder w → (load v hv).Same (load' w hw)) :
    (required ms key load).Same (required ns key load') := by
  rcases h.find?_cases key with ⟨hv, hw⟩ | ⟨v, w, hv, hw, hvw⟩
  · rw [required_of_not_find? hv, required_of_not_find? hw]
    exact (Checked.Same.issue .missing).inside (.key key)
  · rw [required_of_find? hv, required_of_find? hw]
    exact (hload v w _ _ hvw).inside (.key key)

theorem same_defaulted (h : SameMembers ms ns) (key : String) (default : α)
    (hload : ∀ v w hv hw, v.SameUpToOrder w → (load v hv).Same (load' w hw)) :
    (defaulted ms key default load).Same (defaulted ns key default load') := by
  rcases h.find?_cases key with ⟨hv, hw⟩ | ⟨v, w, hv, hw, hvw⟩
  · rw [defaulted_of_not_find? hv, defaulted_of_not_find? hw]
    exact .valid default
  · rw [defaulted_of_find? hv, defaulted_of_find? hw]
    exact h.same_required key hload

theorem same_ofThisKind (h : SameMembers ms ns) (kind : Kind) :
    (ofThisKind ms kind).Same (ofThisKind ns kind) := by
  refine h.same_defaulted "kind" () fun v w _ _ hvw => ?_
  cases hvw with
  | string tag =>
    simp only
    split
    · exact .valid ()
    · exact .issue .wrongKind
  | null | bool | int | float | array | object => exact .issue .wrongKind

/-- Unknown keys are listed in the order in which they came up. -/
theorem same_onlyKeys (h : SameMembers ms ns) (known : List String) :
    (onlyKeys ms known).Same (onlyKeys ns known) := by
  cases h with
  | object hkeys _ =>
    have hunknown := hkeys.filter fun key => !known.contains key
    unfold onlyKeys
    split
    · next hnil =>
      rw [hnil] at hunknown
      rw [← hunknown.nil_eq]
      exact .valid ()
    · next hms =>
      split
      · next hnil =>
        rw [hnil] at hunknown
        exact absurd hunknown.eq_nil hms
      · exact .invalid (hunknown.map _)

theorem same_model {parts parts' : Checked α} (h : SameMembers ms ns) (kind : Kind)
    (keys : List String) (hparts : parts.Same parts') :
    (model ms kind keys parts).Same (model ns kind keys parts') :=
  (((h.same_ofThisKind kind).map _).seq hparts).seq (h.same_onlyKeys _)

end SameUpToOrder

/-! ### Loaders that need no size -/

section

variable {load : Json → Checked α} (hload : IgnoresOrder load)
include hload

theorem IgnoresOrder.asList : IgnoresOrder fun v => asList v fun w _ => load w :=
  fun _ _ h => h.same_asList fun _ _ _ _ hvw => hload hvw

theorem IgnoresOrder.required (key : String) :
    MembersIgnoreOrder fun ms => required ms key fun v _ => load v :=
  fun _ _ h => h.same_required key fun _ _ _ _ hvw => hload hvw

theorem IgnoresOrder.defaulted (key : String) (default : α) :
    MembersIgnoreOrder fun ms => defaulted ms key default fun v _ => load v :=
  fun _ _ h => h.same_defaulted key default fun _ _ _ _ hvw => hload hvw

end

theorem ignoresOrder_asString : IgnoresOrder asString :=
  ignoresOrder_of_scalar (fun _ _ => rfl) fun _ _ => rfl

theorem ignoresOrder_asStringOrNull : IgnoresOrder asStringOrNull :=
  ignoresOrder_of_scalar (fun _ _ => rfl) fun _ _ => rfl

theorem ignoresOrder_asChoice (ofName? : String → Option α) : IgnoresOrder (asChoice ofName?) :=
  ignoresOrder_of_scalar (fun _ _ => rfl) fun _ _ => rfl

theorem ignoresOrder_asInteger : IgnoresOrder asInteger :=
  ignoresOrder_of_scalar (fun _ _ => rfl) fun _ _ => rfl

theorem ignoresOrder_asBoolean : IgnoresOrder asBoolean :=
  ignoresOrder_of_scalar (fun _ _ => rfl) fun _ _ => rfl

/-- A name is a string that must be there. -/
theorem membersIgnoreOrder_name (key : String) :
    MembersIgnoreOrder fun ms => required ms key fun v _ => asString v :=
  ignoresOrder_asString.required key

end Json

/-! ## 5. Types, constants and options -/

theorem TypeRef.membersIgnoreOrder_loadPrimitive : MembersIgnoreOrder loadPrimitive :=
  fun _ _ h => h.same_model _ _ (((ignoresOrder_asChoice _).required _ h).map _)

theorem TypeRef.membersIgnoreOrder_loadNamed : MembersIgnoreOrder loadNamed :=
  fun _ _ h => h.same_model _ _ ((membersIgnoreOrder_name _ h).map _)

/-- A map type, by induction on the size of the object that it is loaded from. -/
theorem TypeRef.same_loadMap (ms ns : Members) (h : SameMembers ms ns) :
    (loadMap ms).Same (loadMap ns) := by
  have hpart : ∀ v w (_ : sizeOf v < sizeOf ms) (_ : sizeOf w < sizeOf ns),
      v.SameUpToOrder w → (load v).Same (load w) := by
    intro v w hv _ hvw
    refine hvw.same_asTagged fun ms' ns' hms' _ hsame => ?_
    have hsize : sizeOf ms' < sizeOf ms := Nat.lt_trans hms' hv
    exact .cons ⟨rfl, membersIgnoreOrder_loadPrimitive hsame⟩
      (.cons ⟨rfl, same_loadMap ms' ns' hsame⟩
        (.cons ⟨rfl, membersIgnoreOrder_loadNamed hsame⟩ .nil))
  rw [loadMap, loadMap]
  exact h.same_model _ _ (((h.same_required _ hpart).map _).seq (h.same_required _ hpart))
termination_by sizeOf ms

theorem TypeRef.ignoresOrder_load : IgnoresOrder load :=
  fun _ _ h => h.same_asTagged fun _ _ _ _ hsame =>
    .cons ⟨rfl, membersIgnoreOrder_loadPrimitive hsame⟩ (.cons ⟨rfl, same_loadMap _ _ hsame⟩
      (.cons ⟨rfl, membersIgnoreOrder_loadNamed hsame⟩ .nil))

theorem Constant.ignoresOrder_load : IgnoresOrder load :=
  fun _ _ h => h.same_asTagged fun _ _ _ _ hsame =>
    .cons ⟨rfl, hsame.same_model _ _ ((ignoresOrder_asInteger.required _ hsame).map _)⟩
      (.cons ⟨rfl, hsame.same_model _ _ ((membersIgnoreOrder_name _ hsame).map _)⟩
        (.cons ⟨rfl, hsame.same_model _ _ ((ignoresOrder_asBoolean.required _ hsame).map _)⟩ .nil))

theorem OptionSetting.membersIgnoreOrder_loadMembers : MembersIgnoreOrder loadMembers :=
  fun _ _ h => h.same_model _ _ (((((membersIgnoreOrder_name _ h).map _).seq
    (ignoresOrder_asBoolean.defaulted _ _ h)).seq
    (ignoresOrder_asStringOrNull.defaulted _ _ h)).seq
    (Constant.ignoresOrder_load.required _ h))

theorem OptionSetting.membersIgnoreOrder_loadAll : MembersIgnoreOrder loadAll :=
  (ignoresOrder_asObject membersIgnoreOrder_loadMembers).asList.defaulted _ _

/-! ## 6. Enumerations and messages -/

theorem EnumEntry.membersIgnoreOrder_loadMembers : MembersIgnoreOrder loadMembers :=
  fun _ _ h => h.same_model _ _ ((((membersIgnoreOrder_name _ h).map _).seq
    (ignoresOrder_asInteger.required _ h)).seq (OptionSetting.membersIgnoreOrder_loadAll h))

theorem EnumItem.ignoresOrder_load : IgnoresOrder load :=
  fun _ _ h => h.same_asTagged fun _ _ _ _ hsame =>
    .cons ⟨rfl, (OptionSetting.membersIgnoreOrder_loadMembers hsame).map _⟩
      (.cons ⟨rfl, (EnumEntry.membersIgnoreOrder_loadMembers hsame).map _⟩ .nil)

theorem Enumeration.membersIgnoreOrder_loadMembers : MembersIgnoreOrder loadMembers :=
  fun _ _ h => h.same_model _ _ (((membersIgnoreOrder_name _ h).map _).seq
    (EnumItem.ignoresOrder_load.asList.defaulted _ _ h))

theorem FieldModifier.ignoresOrder_load : IgnoresOrder load :=
  ignoresOrder_of_scalar (fun _ _ => rfl) fun _ _ => rfl

theorem Field.membersIgnoreOrder_loadMembers : MembersIgnoreOrder loadMembers :=
  fun _ _ h => h.same_model _ _ ((((((FieldModifier.ignoresOrder_load.defaulted _ _ h).map _).seq
    (TypeRef.ignoresOrder_load.required _ h)).seq (membersIgnoreOrder_name _ h)).seq
    (ignoresOrder_asInteger.required _ h)).seq (OptionSetting.membersIgnoreOrder_loadAll h))

/-- What stands in a message, once the messages in it are dealt with. -/
theorem MessageItem.same_load {v w : Json} (h : v.SameUpToOrder w)
    (hmessage : ∀ ms ns, sizeOf ms < sizeOf v → SameMembers ms ns →
      (Message.loadMembers ms).Same (Message.loadMembers ns)) : (load v).Same (load w) :=
  h.same_asTagged fun ms ns hms _ hsame =>
    .cons ⟨rfl, (OptionSetting.membersIgnoreOrder_loadMembers hsame).map _⟩
      (.cons ⟨rfl, (hmessage ms ns hms hsame).map _⟩
        (.cons ⟨rfl, (Enumeration.membersIgnoreOrder_loadMembers hsame).map _⟩
          (.cons ⟨rfl, (Field.membersIgnoreOrder_loadMembers hsame).map _⟩ .nil)))

/-- A message, by induction on the size of the object that it is loaded from. -/
theorem Message.same_loadMembers (ms ns : Members) (h : SameMembers ms ns) :
    (loadMembers ms).Same (loadMembers ns) := by
  have hbody : ∀ v w (_ : sizeOf v < sizeOf ms) (_ : sizeOf w < sizeOf ns), v.SameUpToOrder w →
      (asList v fun u _ => MessageItem.load u).Same (asList w fun u _ => MessageItem.load u) := by
    intro v w hv _ hvw
    refine hvw.same_asList fun t u ht _ htu => MessageItem.same_load htu ?_
    intro ms' ns' hms' hsame
    have hsize : sizeOf ms' < sizeOf ms := Nat.lt_trans hms' (Nat.lt_trans ht hv)
    exact same_loadMembers ms' ns' hsame
  rw [loadMembers, loadMembers]
  exact h.same_model _ _ (((membersIgnoreOrder_name _ h).map _).seq (h.same_defaulted _ _ hbody))
termination_by sizeOf ms

/-! ## 7. Statements and documents -/

theorem Import.ignoresOrder_loadModifier : IgnoresOrder loadModifier :=
  ignoresOrder_of_scalar (fun _ _ => rfl) fun _ _ => rfl

theorem Import.membersIgnoreOrder_loadMembers : MembersIgnoreOrder loadMembers :=
  fun _ _ h => h.same_model _ _ (((membersIgnoreOrder_name _ h).map _).seq
    (ignoresOrder_loadModifier.defaulted _ _ h))

theorem Statement.ignoresOrder_load : IgnoresOrder load :=
  fun _ _ h => h.same_asTagged fun _ _ _ _ hsame =>
    .cons ⟨rfl, (hsame.same_model _ _ (membersIgnoreOrder_name _ hsame)).map _⟩
      (.cons ⟨rfl, (hsame.same_model _ _ (membersIgnoreOrder_name _ hsame)).map _⟩
        (.cons ⟨rfl, (Import.membersIgnoreOrder_loadMembers hsame).map _⟩
          (.cons ⟨rfl, (OptionSetting.membersIgnoreOrder_loadMembers hsame).map _⟩
            (.cons ⟨rfl, (Message.same_loadMembers _ _ hsame).map _⟩
              (.cons ⟨rfl, (Enumeration.membersIgnoreOrder_loadMembers hsame).map _⟩ .nil)))))

theorem Document.ignoresOrder_load : IgnoresOrder load :=
  ignoresOrder_asObject fun _ _ h =>
    h.same_model _ _ ((Statement.ignoresOrder_load.asList.defaulted _ _ h).map _)

/-! ## 8. Artifacts -/

/-- Both artifacts fail at the same check, the second one for the same version or, in some order,
for the same issues. -/
inductive ArtifactError.SameCheck : ArtifactError → ArtifactError → Prop
  | notAnObject : SameCheck notAnObject notAnObject
  | unknownVersion {found found' : Json} (h : found.SameUpToOrder found') :
      SameCheck (unknownVersion found) (unknownVersion found')
  | noDocument : SameCheck noDocument noDocument
  | invalidDocument {is js : List Issue} (h : is.Perm js) :
      SameCheck (invalidDocument is) (invalidDocument js)

namespace Document

/-- Both hold the same document, or both fail at the same check. -/
theorem ofArtifact_sameUpToOrder {v w : Json} (h : v.SameUpToOrder w) :
    (∃ doc, ofArtifact v = .ok doc ∧ ofArtifact w = .ok doc) ∨
      ∃ e e', ofArtifact v = .error e ∧ ofArtifact w = .error e' ∧ e.SameCheck e' := by
  cases h with
  | null | bool | int | float | string | array => exact .inr ⟨_, _, rfl, rfl, .notAnObject⟩
  | @object ms ns hkeys hmembers =>
    have hsame : SameMembers ms ns := .object hkeys hmembers
    have hversion : ((find? "v" ms).getD .null).SameUpToOrder ((find? "v" ns).getD .null) := by
      rcases hsame.find?_cases "v" with ⟨hv, hw⟩ | ⟨v, w, hv, hw, hvw⟩
      · rw [hv, hw]
        exact .null
      · rw [hv, hw]
        exact hvw
    simp only [ofArtifact]
    generalize (find? "v" ms).getD .null = found at hversion ⊢
    generalize (find? "v" ns).getD .null = found' at hversion ⊢
    have hfound := hversion
    cases hversion with
    | string version =>
      by_cases hknown : version = artifactVersion
      · simp only [if_pos hknown]
        rcases hsame.find?_cases "document" with ⟨hv, hw⟩ | ⟨v, w, hv, hw, hvw⟩
        · rw [hv, hw]
          exact .inr ⟨_, _, rfl, rfl, .noDocument⟩
        · rw [hv, hw]
          have hload := ignoresOrder_load hvw
          simp only
          generalize load v = x at hload ⊢
          generalize load w = y at hload ⊢
          cases hload with
          | valid doc => exact .inl ⟨doc, rfl, rfl⟩
          | invalid hissues => exact .inr ⟨_, _, rfl, rfl, .invalidDocument hissues⟩
      · simp only [if_neg hknown]
        exact .inr ⟨_, _, rfl, rfl, .unknownVersion hfound⟩
    | null | bool | int | float | array | object =>
      exact .inr ⟨_, _, rfl, rfl, .unknownVersion hfound⟩

theorem deserialize_of_read {text : String} {v : Json} (h : read text = .ok v) :
    deserialize text = (ofArtifact v).mapError .artifact := by
  rw [deserialize, h]

/-- **The order of keys decides nothing.**  Artifacts whose values are equal but for the order of
keys, at any depth, hold the same document, or they fail at the same check. -/
theorem deserialize_sameUpToOrder {text text' : String} {v w : Json} (hv : read text = .ok v)
    (hw : read text' = .ok w) (h : v.SameUpToOrder w) :
    (∃ doc, deserialize text = .ok doc ∧ deserialize text' = .ok doc) ∨
      ∃ e e', deserialize text = .error (.artifact e) ∧ deserialize text' = .error (.artifact e') ∧
        e.SameCheck e' := by
  rw [deserialize_of_read hv, deserialize_of_read hw]
  rcases ofArtifact_sameUpToOrder h with ⟨doc, hdoc, hdoc'⟩ | ⟨e, e', he, he', hsame⟩
  · exact .inl ⟨doc, by rw [hdoc]; rfl, by rw [hdoc']; rfl⟩
  · exact .inr ⟨e, e', by rw [he]; rfl, by rw [he']; rfl, hsame⟩

/-- The members of an artifact with a key that is ignored. -/
def notedMembers (document : Members) : Members :=
  [("v", .string artifactVersion), ("note", .null), ("document", .object document)]

/-- The members of a document with one statement. -/
def singleMembers (statement : Members) : Members :=
  [("kind", .string "document"), ("statements", .array [.object statement])]

/-- The members of a package statement. -/
def packageMembers : Members := [("kind", .string "package"), ("name", .string "a")]

/-- An artifact, and the same one with each of its objects turned around. -/
theorem deserialize_turned :
    let ms := notedMembers (singleMembers packageMembers)
    let ns := (notedMembers (singleMembers packageMembers.reverse).reverse).reverse
    let text := "\x7b\"v\":\"1\",\"note\":null,\"document\":\x7b\"kind\":\"document\"," ++
      "\"statements\":[\x7b\"kind\":\"package\",\"name\":\"a\"\x7d]\x7d\x7d"
    let text' := "\x7b\"document\":\x7b\"statements\":[\x7b\"name\":\"a\"," ++
      "\"kind\":\"package\"\x7d],\"kind\":\"document\"\x7d,\"note\":null,\"v\":\"1\"\x7d"
    read text = .ok (.object ms) ∧ read text' = .ok (.object ns) ∧ SameMembers ms ns ∧
      ((∃ doc, deserialize text = .ok doc ∧ deserialize text' = .ok doc) ∨
        ∃ e e', deserialize text = .error (.artifact e) ∧
          deserialize text' = .error (.artifact e') ∧ e.SameCheck e') := by
  intro ms ns text text'
  have hread : read text = .ok (.object ms) := by
    have htext : (object ms).written = text := by decide +kernel
    rw [← htext]
    exact read_written (by simp [ms, notedMembers, singleMembers, packageMembers, Regular,
      MembersRegular, AllRegular]) (by decide +kernel)
  have hread' : read text' = .ok (.object ns) := by
    have htext : (object ns).written = text' := by decide +kernel
    rw [← htext]
    exact read_written (by simp [ns, notedMembers, singleMembers, packageMembers, Regular,
      MembersRegular, AllRegular]) (by decide +kernel)
  have hturn {ms ns : Members} (h : SameInside ms ns) (hnodup : (ms.map Prod.fst).Nodup) :
      SameMembers ms ns.reverse := h.sameMembers ns.reverse_perm.symm hnodup
  have hpackage : SameMembers packageMembers packageMembers.reverse :=
    hturn (.cons ⟨rfl, .refl _⟩ (.cons ⟨rfl, .refl _⟩ .nil)) (by decide)
  have hdocument : SameMembers (singleMembers packageMembers)
      (singleMembers packageMembers.reverse).reverse :=
    hturn (.cons ⟨rfl, .refl _⟩ (.cons ⟨rfl, .array (.cons hpackage .nil)⟩ .nil)) (by decide)
  have hsame : SameMembers ms ns :=
    hturn (.cons ⟨rfl, .refl _⟩ (.cons ⟨rfl, .refl _⟩ (.cons ⟨rfl, hdocument⟩ .nil))) (by decide)
  exact ⟨hread, hread', hsame, deserialize_sameUpToOrder hread hread' hsame⟩

end Document
end SchemaLang
