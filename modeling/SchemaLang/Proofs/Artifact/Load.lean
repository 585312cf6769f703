/-
# What is dumped is loaded

Every model is the counterpart of a dump: it asks for the keys that the dump writes, and for no
others.  So each part of a document is loaded from its own dump (`Document.load_dump`), whatever
names and numbers are in it.

The loaders are written for values of any shape.  The lemmas of the first section say what they do
with the shapes that dumps have, and the others only put them together, part by part.
-/
import SchemaLang.Artifact.Load
import SchemaLang.Proofs.Json.RoundTrip

namespace SchemaLang

open Json

variable {α β : Type}

/-! ## 1. Loaders on dumps -/

namespace Json

theorem required_valid {ms : Members} {key : String}
    {load : (v : Json) → sizeOf v < sizeOf ms → Checked α} {v : Json} {a : α}
    (h : find? key ms = some v) (hload : ∀ hv, load v hv = .valid a) :
    required ms key load = .valid a := by
  rw [required_of_find? h, hload]
  rfl

theorem defaulted_valid {ms : Members} {key : String} {default : α}
    {load : (v : Json) → sizeOf v < sizeOf ms → Checked α} {v : Json} {a : α}
    (h : find? key ms = some v) (hload : ∀ hv, load v hv = .valid a) :
    defaulted ms key default load = .valid a := by
  rw [defaulted_of_find? h, required_valid h hload]

/-- The members of an object of a kind. -/
def kindMembers (kind : Kind) (members : Members) : Members :=
  ("kind", .string kind.tag) :: members

/-- A model finds its kind and no keys but its own. -/
theorem model_valid {kind : Kind} {members : Members} {keys : List String} {parts : Checked α}
    {a : α} (hkeys : members.map Prod.fst = keys) (hparts : parts = .valid a) :
    model (kindMembers kind members) kind keys parts = .valid a := by
  have hkind : ofThisKind (kindMembers kind members) kind = .valid () := by
    refine defaulted_valid (v := .string kind.tag) rfl fun _ => ?_
    simp
  have honly : onlyKeys (kindMembers kind members) ("kind" :: keys) = .valid () := by
    have hnone : ((kindMembers kind members).map Prod.fst).filter
        (fun key => !("kind" :: keys).contains key) = [] := by
      refine List.filter_eq_nil_iff.mpr fun key hkey => ?_
      rw [kindMembers, List.map_cons, hkeys] at hkey
      simpa [or_iff_not_imp_left] using hkey
    rw [onlyKeys, hnone]
  rw [model, hkind, honly, hparts]
  rfl

/-- The choice of a kind. -/
theorem select_valid {kind : Kind} {models : List (Kind × (Unit → Checked α))}
    {load : Unit → Checked α} {a : α} (hnodup : (models.map Prod.fst).Nodup)
    (hmem : (kind, load) ∈ models) (hload : load () = .valid a) :
    select kind.tag models = .valid a := by
  induction models with
  | nil => exact absurd hmem (by simp)
  | cons m models ih =>
    obtain ⟨k, l⟩ := m
    rw [List.map_cons, List.nodup_cons] at hnodup
    rw [select]
    rcases List.mem_cons.mp hmem with heq | hmem
    · obtain ⟨rfl, rfl⟩ := Prod.mk.inj heq
      rw [if_pos rfl, hload]
      rfl
    · have hne : k.tag ≠ kind.tag := by
        intro htag
        obtain rfl := Kind.tag_injective htag
        exact hnodup.1 (List.mem_map.mpr ⟨_, hmem, rfl⟩)
      rw [if_neg hne, ih hnodup.2 hmem]

/-- An object of a kind is loaded by the model of that kind. -/
theorem asTagged_valid {kind : Kind} {members : Members}
    {models : (ms : Members) → sizeOf ms < sizeOf (ofKind kind members) →
      List (Kind × (Unit → Checked α))} {load : Unit → Checked α} {a : α}
    (hnodup : ∀ h, ((models (kindMembers kind members) h).map Prod.fst).Nodup)
    (hmem : ∀ h, (kind, load) ∈ models (kindMembers kind members) h)
    (hload : load () = .valid a) : asTagged (ofKind kind members) models = .valid a :=
  select_valid (hnodup _) (hmem _) hload

/-- A part that comes in several kinds is loaded from the dump that it has in its own kind. -/
theorem asTagged_part {v : Json} {kind : Kind} {part : Members → Checked β} {make : β → α} {b : β}
    {models : (ms : Members) → sizeOf ms < sizeOf v → List (Kind × (Unit → Checked α))}
    (hdump : ∃ members, v = ofKind kind members ∧ part (kindMembers kind members) = .valid b)
    (hnodup : ∀ ms h, ((models ms h).map Prod.fst).Nodup)
    (hmem : ∀ ms h, (kind, fun _ => (part ms).map make) ∈ models ms h) :
    asTagged v models = .valid (make b) := by
  obtain ⟨members, rfl, hpart⟩ := hdump
  refine asTagged_valid (fun h => hnodup _ h) (fun h => hmem _ h) ?_
  rw [hpart]
  rfl

/-- Dumped items are loaded one by one. -/
theorem eachFrom_valid {dump : α → Json} {xs : List α} {i : Nat}
    {load : (v : Json) → sizeOf v < sizeOf (xs.map dump) → Checked α}
    (h : ∀ x ∈ xs, ∀ hx, load (dump x) hx = .valid x) :
    eachFrom i (xs.map dump) load = .valid xs := by
  induction xs generalizing i with
  | nil => rfl
  | cons x xs ih =>
    have hlarger : ∀ w : Json, sizeOf w < sizeOf (xs.map dump) →
        sizeOf w < sizeOf ((x :: xs).map dump) := by
      intro w hw
      rw [List.map_cons, List.cons.sizeOf_spec]
      omega
    have hrest : eachFrom (i + 1) (xs.map dump) (fun w hw => load w (hlarger w hw)) = .valid xs :=
      ih fun y hy _ => h y (List.mem_cons_of_mem _ hy) _
    show (((load (dump x) _).inside (.index i)).map List.cons).seq
      (eachFrom (i + 1) (xs.map dump) fun w hw => load w (hlarger w hw)) = _
    rw [h x List.mem_cons_self, hrest]
    rfl

theorem asList_valid {dump : α → Json} {xs : List α}
    {load : (v : Json) → sizeOf v < sizeOf (Json.array (xs.map dump)) → Checked α}
    (h : ∀ x ∈ xs, ∀ hx, load (dump x) hx = .valid x) :
    asList (.array (xs.map dump)) load = .valid xs :=
  eachFrom_valid fun x hx _ => h x hx _

end Json

/-! ## 2. Types, constants and options -/

theorem TypeRef.load_dump (t : TypeRef) : load t.dump = .valid t := by
  induction t with
  | primitive p =>
    refine asTagged_valid (fun _ => by simp) (fun _ => .head _) (model_valid rfl ?_)
    rw [required_valid (v := .string p.name) rfl fun _ => by
      rw [asChoice, PrimitiveType.ofName?_name]]
    rfl
  | map key value hkey hvalue =>
    refine asTagged_valid (fun _ => by simp) (fun _ => .tail _ (.head _)) ?_
    rw [loadMap]
    refine model_valid rfl ?_
    rw [required_valid (v := key.dump) rfl fun _ => hkey,
      required_valid (v := value.dump) rfl fun _ => hvalue]
    rfl
  | named path =>
    refine asTagged_valid (fun _ => by simp) (fun _ => .tail _ (.tail _ (.head _)))
      (model_valid rfl ?_)
    rw [required_valid (v := .string path) rfl fun _ => rfl]
    rfl

theorem Constant.load_dump (c : Constant) : load c.dump = .valid c := by
  cases c with
  | numeric n =>
    refine asTagged_valid (fun _ => by simp) (fun _ => .head _) (model_valid rfl ?_)
    rw [required_valid (v := .int n) rfl fun _ => rfl]
    rfl
  | string text =>
    refine asTagged_valid (fun _ => by simp) (fun _ => .tail _ (.head _)) (model_valid rfl ?_)
    rw [required_valid (v := .string text) rfl fun _ => rfl]
    rfl
  | boolean b =>
    refine asTagged_valid (fun _ => by simp) (fun _ => .tail _ (.tail _ (.head _)))
      (model_valid rfl ?_)
    rw [required_valid (v := .bool b) rfl fun _ => rfl]
    rfl

theorem asStringOrNull_ofOption (s : Option String) : asStringOrNull (ofOption s) = .valid s := by
  cases s <;> rfl

/-- The members of an option. -/
theorem OptionSetting.exists_members (o : OptionSetting) :
    ∃ members, o.dump = ofKind .option members ∧
      loadMembers (kindMembers .option members) = .valid o := by
  refine ⟨_, rfl, model_valid rfl ?_⟩
  rw [required_valid (v := .string o.name) rfl fun _ => rfl,
    defaulted_valid (v := .bool o.isExtension) rfl fun _ => rfl,
    defaulted_valid (v := ofOption o.fieldPath) rfl fun _ => asStringOrNull_ofOption _,
    required_valid (v := o.value.dump) rfl fun _ => o.value.load_dump]
  rfl

theorem OptionSetting.loadAll_dumpAll {ms : Members} {os : List OptionSetting}
    (h : find? "options" ms = some (dumpAll os)) : loadAll ms = .valid os := by
  refine defaulted_valid h fun _ => asList_valid fun o _ _ => ?_
  obtain ⟨members, hdump, hload⟩ := o.exists_members
  rw [hdump]
  exact hload

/-! ## 3. Enumerations -/

theorem EnumEntry.exists_members (e : EnumEntry) :
    ∃ members, e.dump = ofKind .enumValue members ∧
      loadMembers (kindMembers .enumValue members) = .valid e := by
  refine ⟨_, rfl, model_valid rfl ?_⟩
  rw [required_valid (v := .string e.name) rfl fun _ => rfl,
    required_valid (v := .int e.tag) rfl fun _ => rfl, OptionSetting.loadAll_dumpAll rfl]
  rfl

theorem EnumItem.load_dump (i : EnumItem) : load i.dump = .valid i := by
  cases i with
  | setting o => exact asTagged_part o.exists_members (by simp) fun _ _ => .head _
  | entry e => exact asTagged_part e.exists_members (by simp) fun _ _ => .tail _ (.head _)

theorem Enumeration.exists_members (e : Enumeration) :
    ∃ members, e.dump = ofKind .enum members ∧
      loadMembers (kindMembers .enum members) = .valid e := by
  refine ⟨_, rfl, model_valid rfl ?_⟩
  rw [required_valid (v := .string e.name) rfl fun _ => rfl,
    defaulted_valid (v := .array (e.body.map EnumItem.dump)) rfl fun _ =>
      asList_valid fun i _ _ => i.load_dump]
  rfl

/-! ## 4. Messages -/

theorem FieldModifier.load_dump (m : Option FieldModifier) :
    load (ofOption (m.map FieldModifier.name)) = .valid m := by
  cases m with
  | none => rfl
  | some m =>
    show (asChoice ofName? (.string m.name)).map some = _
    rw [asChoice, ofName?_name]
    rfl

theorem Field.exists_members (f : Field) :
    ∃ members, f.dump = ofKind .field members ∧
      loadMembers (kindMembers .field members) = .valid f := by
  refine ⟨_, rfl, model_valid rfl ?_⟩
  rw [defaulted_valid (v := ofOption (f.modifier.map FieldModifier.name)) rfl fun _ =>
      FieldModifier.load_dump _,
    required_valid (v := f.type.dump) rfl fun _ => f.type.load_dump,
    required_valid (v := .string f.name) rfl fun _ => rfl,
    required_valid (v := .int f.tag) rfl fun _ => rfl, OptionSetting.loadAll_dumpAll rfl]
  rfl

theorem Message.dump_eq (m : Message) : m.dump =
    ofKind .message [("name", .string m.name), ("body", .array (m.body.map MessageItem.dump))] := by
  rw [dump, MessageItem.ofMessage, MessageItem.dump, MessageItem.dumpAll_eq_map]

/-- A message is loaded from its dump if the items in it are. -/
theorem Message.exists_members (m : Message)
    (h : ∀ i ∈ m.body, MessageItem.load i.dump = .valid i) :
    ∃ members, m.dump = ofKind .message members ∧
      loadMembers (kindMembers .message members) = .valid m := by
  refine ⟨_, m.dump_eq, ?_⟩
  rw [loadMembers]
  refine model_valid rfl ?_
  rw [required_valid (v := .string m.name) rfl fun _ => rfl,
    defaulted_valid (v := .array (m.body.map MessageItem.dump)) rfl fun _ =>
      asList_valid fun i hi _ => h i hi]
  rfl

namespace MessageItem

mutual

theorem load_dump (i : MessageItem) : load i.dump = .valid i := by
  cases i with
  | setting o => exact asTagged_part o.exists_members (by simp) fun _ _ => .head _
  | message name body =>
    have hbody := Message.exists_members ⟨name, body⟩ (allLoad_dump body)
    show load _ = .valid (ofMessage ⟨name, body⟩)
    exact asTagged_part hbody (by simp) fun _ _ => .tail _ (.head _)
  | enumeration e =>
    exact asTagged_part e.exists_members (by simp) fun _ _ => .tail _ (.tail _ (.head _))
  | field f =>
    exact asTagged_part f.exists_members (by simp)
      fun _ _ => .tail _ (.tail _ (.tail _ (.head _)))

theorem allLoad_dump (is : List MessageItem) : ∀ i ∈ is, load i.dump = .valid i := by
  cases is with
  | nil => exact fun i hi => absurd hi (by simp)
  | cons i is =>
    intro j hj
    rcases List.mem_cons.mp hj with hij | hj
    · rw [hij]
      exact load_dump i
    · exact allLoad_dump is j hj

end

end MessageItem

/-! ## 5. Statements and documents -/

theorem Import.exists_members (i : Import) :
    ∃ members, i.dump = ofKind .importDecl members ∧
      loadMembers (kindMembers .importDecl members) = .valid i := by
  obtain ⟨path, isPublic⟩ := i
  refine ⟨_, rfl, model_valid rfl ?_⟩
  rw [required_valid (v := .string path) rfl fun _ => rfl,
    defaulted_valid (v := if isPublic then .string publicWord else .null) (a := isPublic) rfl
      fun _ => by cases isPublic <;> rfl]
  rfl

theorem Statement.load_dump (s : Statement) : load s.dump = .valid s := by
  cases s with
  | syntaxDecl value =>
    have hload : loadSyntax (kindMembers .syntaxDecl [("value", .string value)]) = .valid value :=
      model_valid rfl (required_valid (v := .string value) rfl fun _ => rfl)
    exact asTagged_part ⟨_, rfl, hload⟩ (by simp) fun _ _ => .head _
  | packageDecl name =>
    have hload : loadPackage (kindMembers .packageDecl [("name", .string name)]) = .valid name :=
      model_valid rfl (required_valid (v := .string name) rfl fun _ => rfl)
    exact asTagged_part ⟨_, rfl, hload⟩ (by simp) fun _ _ => .tail _ (.head _)
  | importDecl i =>
    exact asTagged_part i.exists_members (by simp) fun _ _ => .tail _ (.tail _ (.head _))
  | setting o =>
    exact asTagged_part o.exists_members (by simp)
      fun _ _ => .tail _ (.tail _ (.tail _ (.head _)))
  | message m =>
    have hbody := m.exists_members (MessageItem.allLoad_dump m.body)
    exact asTagged_part hbody (by simp)
      fun _ _ => .tail _ (.tail _ (.tail _ (.tail _ (.head _))))
  | enumeration e =>
    exact asTagged_part e.exists_members (by simp)
      fun _ _ => .tail _ (.tail _ (.tail _ (.tail _ (.tail _ (.head _)))))

/-- **A document is loaded from its dump.** -/
theorem Document.load_dump (d : Document) : load d.dump = .valid d := by
  have hdump : d.dump = .object (kindMembers .document
      [("statements", .array (d.statements.map Statement.dump))]) := rfl
  rw [hdump, load, asObject, loadMembers]
  refine model_valid rfl ?_
  rw [defaulted_valid (v := .array (d.statements.map Statement.dump)) rfl fun _ =>
    asList_valid fun s _ _ => s.load_dump]
  rfl

end SchemaLang
