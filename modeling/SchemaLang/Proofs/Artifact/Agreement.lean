/-
# Loading drops, reorders and invents nothing

A value that is accepted as a document says everything that the document says, and nothing else.
`Json.Agrees` compares it with the dump of the document: lists have the same items in the same
order, every key that the value has is a key of the dump, a key that only the dump has carries the
default of its class, texts are the same, and numbers and truth values are denoted by what the
value has in their place.

The classes are given by a table that lists the keys of each kind (`Kind.slots`).  The relation
goes along with the kinds that may stand at a place, so an object in the value is of the kind that
it has in the dump, and one of a wrong kind agrees with nothing.  An object inside an accepted value
has no keys but those of its class (`Json.Stands.exists_kind`), wherever it stands.
-/
import SchemaLang.Proofs.Artifact.Loaded
import SchemaLang.Proofs.Artifact.RoundTrip
import SchemaLang.Proofs.Artifact.Scalar

namespace SchemaLang

open Json

variable {α : Type}

/-! ## 1. The classes -/

/-- What stands under a key: an object of one of some kinds, a list of such objects, or a scalar
if there are no kinds. -/
structure Slot where
  kinds : List Kind
  /-- What the key means if it is left out, unless it must be there. -/
  default : Option Json

/-- A key that must be there. -/
def Slot.required (kinds : List Kind) : Slot := ⟨kinds, none⟩

/-- A key that may be left out. -/
def Slot.defaulted (kinds : List Kind) (default : Json) : Slot := ⟨kinds, some default⟩

namespace Kind

/-- The kinds of types. -/
def types : List Kind := [primitive, map, named]

/-- The kinds of constants. -/
def constants : List Kind := [numeric, string, boolean]

/-- The kinds of what stands in an enumeration. -/
def enumItems : List Kind := [option, enumValue]

/-- The kinds of what stands in a message. -/
def messageItems : List Kind := [option, message, enum, field]

/-- The kinds of statements. -/
def statements : List Kind := [syntaxDecl, packageDecl, importDecl, option, message, enum]

/-- The keys of a kind besides the tag. -/
def ownSlots : Kind → List (String × Slot)
  | primitive => [("primitive", .required [])]
  | map => [("key_type", .required types), ("value_type", .required types)]
  | named | packageDecl => [("name", .required [])]
  | numeric | string | boolean | syntaxDecl => [("value", .required [])]
  | option => [
    ("name", .required []),
    ("is_extension", .defaulted [] (.bool false)),
    ("field_path", .defaulted [] .null),
    ("value", .required constants)]
  | field => [
    ("modifier", .defaulted [] .null),
    ("type", .required types),
    ("name", .required []),
    ("tag", .required []),
    ("options", .defaulted [option] (.array []))]
  | enumValue => [
    ("name", .required []),
    ("tag", .required []),
    ("options", .defaulted [option] (.array []))]
  | enum => [("name", .required []), ("body", .defaulted enumItems (.array []))]
  | message => [("name", .required []), ("body", .defaulted messageItems (.array []))]
  | importDecl => [("path", .required []), ("modifier", .defaulted [] .null)]
  | document => [("statements", .defaulted statements (.array []))]

/-- The keys of a kind. -/
def slots (k : Kind) : List (String × Slot) :=
  ("kind", .defaulted [] (.string k.tag)) :: k.ownSlots

/-- The names of the keys of a kind. -/
def keys (k : Kind) : List String := k.slots.map Prod.fst

/-- The kinds that may stand under a key. -/
def under (k : Kind) (key : String) : List Kind := ((k.slots.lookup key).map Slot.kinds).getD []

/-- What a key means if it is left out. -/
def default? (k : Kind) (key : String) : Option Json := (k.slots.lookup key).bind Slot.default

end Kind

namespace Json

/-- The kind that an object is of, where one of some kinds has to stand.  The tag tells it, and
may be left out if there is only one. -/
def kindAmong (ks : List Kind) (ms : Members) : Option Kind :=
  match find? "kind" ms with
  | some (.string tag) => ks.find? fun k => k.tag = tag
  | some _ => none
  | none =>
    match ks with
    | [k] => some k
    | _ => none

theorem kindAmong_of_tag {ks : List Kind} {ms : Members} {k : Kind} (hk : k ∈ ks)
    (h : find? "kind" ms = some (.string k.tag)) : kindAmong ks ms = some k := by
  unfold kindAmong
  rw [h]
  show ks.find? _ = some k
  clear h
  induction ks with
  | nil => exact absurd hk (by simp)
  | cons j ks ih =>
    by_cases hj : j.tag = k.tag
    · obtain rfl := Kind.tag_injective hj
      exact List.find?_cons_of_pos (by simp)
    · rw [List.find?_cons_of_neg (by simpa using hj)]
      rcases List.mem_cons.mp hk with rfl | hk
      · exact absurd rfl hj
      · exact ih hk

theorem kindAmong_of_ofThisKind {ms : Members} {k : Kind} {u : Unit}
    (h : ofThisKind ms k = .valid u) : kindAmong [k] ms = some k := by
  rcases kind_of_ofThisKind h with hnone | htag
  · unfold kindAmong
    rw [hnone]
  · exact kindAmong_of_tag List.mem_cons_self htag

/-! ## 2. Agreement -/

/-- A value says what a dump says, where an object has to be of one of some kinds.  Under a key
stands what is found under it. -/
inductive Agrees : List Kind → Json → Json → Prop
  | null {ks : List Kind} : Agrees ks null null
  | string {ks : List Kind} (s : String) : Agrees ks (string s) (string s)
  | int {ks : List Kind} {v : Json} {n : Int} (h : v.Denotes n) : Agrees ks v (int n)
  | bool {ks : List Kind} {v : Json} {b : Bool} (h : v.DenotesTruth b) : Agrees ks v (bool b)
  | array {ks : List Kind} {vs ws : List Json} (hlength : vs.length = ws.length)
      (hitems : ∀ (i : Nat) v w, vs[i]? = some v → ws[i]? = some w → Agrees ks v w) :
      Agrees ks (array vs) (array ws)
  | object {ks : List Kind} {k : Kind} {ms ws : Members} (hkind : kindAmong ks ms = some k)
      (hclass : ws.map Prod.fst = k.keys) (htag : find? "kind" ws = some (string k.tag))
      (hknown : ∀ key ∈ ms.map Prod.fst, key ∈ k.keys)
      (hsaid : ∀ key v w, find? key ms = some v → find? key ws = some w →
        Agrees (k.under key) v w)
      (hunsaid : ∀ key w, find? key ms = none → find? key ws = some w →
        k.default? key = some w) :
      Agrees ks (object ms) (object ws)

/-- An object and a dump agree on a key. -/
structure Carries (ms : Members) (key : String) (slot : Slot) (w : Json) : Prop where
  said : ∀ v, find? key ms = some v → Agrees slot.kinds v w
  unsaid : find? key ms = none → slot.default = some w

/-- An object and a dump agree on the keys of a class, one after the other. -/
abbrev CarriesAll (ms : Members) (slots : List (String × Slot)) (ws : Members) : Prop :=
  List.Forall₂ (fun s m => s.1 = m.1 ∧ Carries ms s.1 s.2 m.2) slots ws

theorem CarriesAll.exists_slot {ms ws : Members} {slots : List (String × Slot)} {key : String}
    {w : Json} (h : CarriesAll ms slots ws) (hw : find? key ws = some w) :
    ∃ slot, slots.lookup key = some slot ∧ Carries ms key slot w := by
  induction h with
  | nil => exact absurd hw (by simp)
  | @cons s m slots ws hm _ ih =>
    obtain ⟨name, slot⟩ := s
    obtain ⟨_, w'⟩ := m
    obtain ⟨rfl, hcarries⟩ := hm
    by_cases hkey : name = key
    · subst hkey
      obtain rfl : w' = w := by simpa [find?_cons] using hw
      exact ⟨slot, by simp, hcarries⟩
    · have hne : (key == name) = false := by simpa using Ne.symm hkey
      obtain ⟨slot', hslot, hcarries'⟩ := ih (by simpa [find?_cons, hkey] using hw)
      exact ⟨slot', by simpa [List.lookup_cons, hne] using hslot, hcarries'⟩

theorem CarriesAll.map_fst {ms ws : Members} {slots : List (String × Slot)}
    (h : CarriesAll ms slots ws) : ws.map Prod.fst = slots.map Prod.fst := by
  induction h with
  | nil => rfl
  | cons hm _ ih => rw [List.map_cons, List.map_cons, ih, hm.1]

/-- What a model has loaded agrees with a dump of the same class if each of its keys does. -/
theorem agrees_of_model {ks : List Kind} {ms members : Members} {kind : Kind} {keys : List String}
    {parts : Checked α} {a : α} (h : model ms kind keys parts = .valid a)
    (hkind : kindAmong ks ms = some kind) (hkeys : kind.ownSlots.map Prod.fst = keys)
    (hmembers : CarriesAll ms kind.ownSlots members) :
    Agrees ks (object ms) (ofKind kind members) := by
  obtain ⟨hthis, -, hknown⟩ := exists_of_model h
  have htag : Carries ms "kind" (.defaulted [] (string kind.tag)) (string kind.tag) := by
    rcases kind_of_ofThisKind hthis with hnone | htag
    · exact ⟨fun v hv => absurd (hnone.symm.trans hv) (by simp), fun _ => rfl⟩
    · refine ⟨fun v hv => ?_, fun hnone => absurd (hnone.symm.trans htag) (by simp)⟩
      obtain rfl := Option.some.inj (htag.symm.trans hv)
      exact .string kind.tag
  have hall : CarriesAll ms kind.slots (("kind", string kind.tag) :: members) :=
    .cons ⟨rfl, htag⟩ hmembers
  refine .object hkind hall.map_fst rfl ?_ ?_ ?_
  · rw [Kind.keys, Kind.slots, List.map_cons, hkeys]
    exact hknown
  · intro key v w hv hw
    obtain ⟨slot, hslot, hcarries⟩ := hall.exists_slot hw
    rw [Kind.under, hslot]
    exact hcarries.said v hv
  · intro key w hnone hw
    obtain ⟨slot, hslot, hcarries⟩ := hall.exists_slot hw
    rw [Kind.default?, hslot]
    exact hcarries.unsaid hnone

/-! ### Loaders -/

theorem carries_of_required {ks : List Kind} {ms : Members} {key : String} {w : Json}
    {load : (v : Json) → sizeOf v < sizeOf ms → Checked α} {a : α}
    (h : required ms key load = .valid a)
    (hload : ∀ v hv, load v hv = .valid a → Agrees ks v w) : Carries ms key (.required ks) w := by
  obtain ⟨v, hv, hfind, ha⟩ := exists_of_required h
  refine ⟨fun v' hv' => ?_, fun hnone => absurd (hnone.symm.trans hfind) (by simp)⟩
  obtain rfl := Option.some.inj (hfind.symm.trans hv')
  exact hload v hv ha

theorem carries_of_defaulted {ks : List Kind} {ms : Members} {key : String} {default : α}
    {load : (v : Json) → sizeOf v < sizeOf ms → Checked α} {a : α} (dump : α → Json)
    (h : defaulted ms key default load = .valid a)
    (hload : ∀ v hv, load v hv = .valid a → Agrees ks v (dump a)) :
    Carries ms key (.defaulted ks (dump default)) (dump a) := by
  rcases exists_of_defaulted h with ⟨hnone, rfl⟩ | ⟨v, hv, hfind, ha⟩
  · exact ⟨fun v hv => absurd (hnone.symm.trans hv) (by simp), fun _ => rfl⟩
  · refine ⟨fun v' hv' => ?_, fun hnone => absurd (hnone.symm.trans hfind) (by simp)⟩
    obtain rfl := Option.some.inj (hfind.symm.trans hv')
    exact hload v hv ha

theorem agrees_of_asString {ks : List Kind} {v : Json} {s : String} (h : asString v = .valid s) :
    Agrees ks v (string s) := by
  cases v with
  | string t =>
    obtain rfl := Checked.valid.inj h
    exact .string t
  | null | bool | int | float | array | object => exact absurd h (by simp [asString, Checked.issue])

theorem agrees_of_asStringOrNull {ks : List Kind} {v : Json} {s : Option String}
    (h : asStringOrNull v = .valid s) : Agrees ks v (ofOption s) := by
  unfold asStringOrNull at h
  split at h
  · obtain rfl := Checked.valid.inj h
    exact .null
  · obtain ⟨t, ht, rfl⟩ := Checked.map_eq_valid_iff.mp h
    exact agrees_of_asString ht

theorem exists_of_asChoice {v : Json} {ofName? : String → Option α} {a : α}
    (h : asChoice ofName? v = .valid a) : ∃ s, v = string s ∧ ofName? s = some a := by
  unfold asChoice at h
  split at h
  · next s =>
    split at h
    · next hs =>
      obtain rfl := Checked.valid.inj h
      exact ⟨s, rfl, hs⟩
    · exact absurd h (by simp [Checked.issue])
  · exact absurd h (by simp [Checked.issue])

theorem agrees_of_asChoice {ks : List Kind} {v : Json} {ofName? : String → Option α}
    {name : α → String} {a : α} (hname : ∀ {s a}, ofName? s = some a → name a = s)
    (h : asChoice ofName? v = .valid a) : Agrees ks v (string (name a)) := by
  obtain ⟨s, rfl, hs⟩ := exists_of_asChoice h
  rw [hname hs]
  exact .string s

theorem agrees_of_asList {ks : List Kind} {v : Json} {dump : α → Json}
    {load : (w : Json) → sizeOf w < sizeOf v → Checked α} {xs : List α}
    (h : asList v load = .valid xs)
    (hitem : ∀ w hw x, load w hw = .valid x → Agrees ks w (dump x)) :
    Agrees ks v (array (xs.map dump)) := by
  obtain ⟨items, rfl, hlength, hitems⟩ := exists_of_asList h
  refine .array (by simpa using hlength) fun i w u hw hu => ?_
  rw [List.getElem?_map, Option.map_eq_some_iff] at hu
  obtain ⟨x, hx, rfl⟩ := hu
  obtain ⟨_, hload⟩ := hitems i w x hw hx
  exact hitem w _ x hload

/-- An object that tells its kind agrees with a dump if it does in the model of that kind. -/
theorem agrees_of_asTagged {ks : List Kind} {v w : Json}
    {models : (ms : Members) → sizeOf ms < sizeOf v → List (Kind × (Unit → Checked α))} {a : α}
    (h : asTagged v models = .valid a) (hks : ∀ ms hms, (models ms hms).map Prod.fst = ks)
    (hmodel : ∀ ms hms, ∀ m ∈ models ms hms, v = object ms → kindAmong ks ms = some m.1 →
      m.2 () = .valid a → Agrees ks (object ms) w) : Agrees ks v w := by
  obtain ⟨ms, hms, rfl, m, hm, htag, hload⟩ := exists_of_asTagged h
  have hmem : m.1 ∈ ks := by
    rw [← hks ms hms]
    exact List.mem_map_of_mem hm
  exact hmodel ms hms m hm rfl (kindAmong_of_tag hmem htag) hload

end Json

/-! ## 3. Types, constants and options -/

theorem TypeRef.agrees_of_loadPrimitive {ks : List Kind} {ms : Members} {t : TypeRef}
    (h : loadPrimitive ms = .valid t) (hkind : kindAmong ks ms = some .primitive) :
    Agrees ks (object ms) t.dump := by
  obtain ⟨p, hp, rfl⟩ := Checked.map_eq_valid_iff.mp (valid_of_model h)
  refine agrees_of_model h hkind rfl (.cons ⟨rfl, ?_⟩ .nil)
  exact carries_of_required hp fun _ _ => agrees_of_asChoice PrimitiveType.name_of_ofName?

theorem TypeRef.agrees_of_loadNamed {ks : List Kind} {ms : Members} {t : TypeRef}
    (h : loadNamed ms = .valid t) (hkind : kindAmong ks ms = some .named) :
    Agrees ks (object ms) t.dump := by
  obtain ⟨path, hpath, rfl⟩ := Checked.map_eq_valid_iff.mp (valid_of_model h)
  refine agrees_of_model h hkind rfl (.cons ⟨rfl, ?_⟩ .nil)
  exact carries_of_required hpath fun _ _ => agrees_of_asString

/-- A type of any kind, once its map types are dealt with. -/
theorem TypeRef.agrees_of_maps {v : Json} {t : TypeRef}
    (hmap : ∀ ms t, sizeOf ms < sizeOf v → loadMap ms = .valid t →
      kindAmong Kind.types ms = some .map → Agrees Kind.types (object ms) t.dump)
    (h : load v = .valid t) : Agrees Kind.types v t.dump := by
  refine agrees_of_asTagged h (fun _ _ => rfl) ?_
  intro ms hms m hm _ hkind hload
  simp only [List.mem_cons, List.not_mem_nil, or_false] at hm
  rcases hm with rfl | rfl | rfl
  · exact agrees_of_loadPrimitive hload hkind
  · exact hmap ms t hms hload hkind
  · exact agrees_of_loadNamed hload hkind

/-- A map type, by induction on the size of the object that it is loaded from. -/
theorem TypeRef.agrees_of_loadMap (ms : Members) (t : TypeRef) (h : loadMap ms = .valid t)
    (hkind : kindAmong Kind.types ms = some .map) : Agrees Kind.types (object ms) t.dump := by
  have hmodel := h
  rw [loadMap] at hmodel
  obtain ⟨f, value, hf, hvalue, rfl⟩ := Checked.seq_eq_valid_iff.mp (valid_of_model hmodel)
  obtain ⟨key, hkey, rfl⟩ := Checked.map_eq_valid_iff.mp hf
  have hpart : ∀ v (_ : sizeOf v < sizeOf ms) t', load v = .valid t' →
      Agrees Kind.types v t'.dump := by
    intro v hv t' ht'
    refine agrees_of_maps (fun ms' t' hms' ht' hkind' => ?_) ht'
    have hsize : sizeOf ms' < sizeOf ms := Nat.lt_trans hms' hv
    exact agrees_of_loadMap ms' t' ht' hkind'
  refine agrees_of_model hmodel hkind rfl (.cons ⟨rfl, ?_⟩ (.cons ⟨rfl, ?_⟩ .nil))
  · exact carries_of_required hkey fun v hv => hpart v hv key
  · exact carries_of_required hvalue fun v hv => hpart v hv value
termination_by sizeOf ms

theorem TypeRef.agrees_of_load {v : Json} {t : TypeRef} (h : load v = .valid t) :
    Agrees Kind.types v t.dump :=
  agrees_of_maps (fun ms t _ => agrees_of_loadMap ms t) h

theorem Constant.agrees_of_load {v : Json} {c : Constant} (h : load v = .valid c) :
    Agrees Kind.constants v c.dump := by
  refine agrees_of_asTagged h (fun _ _ => rfl) ?_
  intro ms _ m hm _ hkind hload
  simp only [List.mem_cons, List.not_mem_nil, or_false] at hm
  rcases hm with rfl | rfl | rfl
  · obtain ⟨n, hn, rfl⟩ := Checked.map_eq_valid_iff.mp (valid_of_model hload)
    refine agrees_of_model hload hkind rfl (.cons ⟨rfl, ?_⟩ .nil)
    exact carries_of_required hn fun _ _ hv => .int (denotes_of_asInteger hv)
  · obtain ⟨s, hs, rfl⟩ := Checked.map_eq_valid_iff.mp (valid_of_model hload)
    refine agrees_of_model hload hkind rfl (.cons ⟨rfl, ?_⟩ .nil)
    exact carries_of_required hs fun _ _ => agrees_of_asString
  · obtain ⟨b, hb, rfl⟩ := Checked.map_eq_valid_iff.mp (valid_of_model hload)
    refine agrees_of_model hload hkind rfl (.cons ⟨rfl, ?_⟩ .nil)
    exact carries_of_required hb fun _ _ hv => .bool (denotesTruth_of_asBoolean hv)

namespace OptionSetting

theorem agrees_of_loadMembers {ks : List Kind} {ms : Members} {o : OptionSetting}
    (h : loadMembers ms = .valid o) (hkind : kindAmong ks ms = some .option) :
    Agrees ks (object ms) o.dump := by
  obtain ⟨f, c, hf, hc, rfl⟩ := Checked.seq_eq_valid_iff.mp (valid_of_model h)
  obtain ⟨g, path, hg, hpath, rfl⟩ := Checked.seq_eq_valid_iff.mp hf
  obtain ⟨g', isExtension, hg', hextension, rfl⟩ := Checked.seq_eq_valid_iff.mp hg
  obtain ⟨name, hname, rfl⟩ := Checked.map_eq_valid_iff.mp hg'
  refine agrees_of_model h hkind rfl
    (.cons ⟨rfl, ?_⟩ (.cons ⟨rfl, ?_⟩ (.cons ⟨rfl, ?_⟩ (.cons ⟨rfl, ?_⟩ .nil))))
  · exact carries_of_required hname fun _ _ => agrees_of_asString
  · exact carries_of_defaulted Json.bool hextension
      fun _ _ hv => .bool (denotesTruth_of_asBoolean hv)
  · exact carries_of_defaulted ofOption hpath fun _ _ => agrees_of_asStringOrNull
  · exact carries_of_required hc fun _ _ => Constant.agrees_of_load

theorem carries_of_loadAll {ms : Members} {os : List OptionSetting} (h : loadAll ms = .valid os) :
    Carries ms "options" (.defaulted [.option] (.array [])) (dumpAll os) := by
  refine carries_of_defaulted dumpAll h fun v _ hv => agrees_of_asList hv fun w _ o hw => ?_
  obtain ⟨ms', rfl, hload⟩ := exists_of_asObject hw
  exact agrees_of_loadMembers hload (kindAmong_of_ofThisKind (exists_of_model hload).1)

end OptionSetting

/-! ## 4. Enumerations -/

theorem EnumEntry.agrees_of_loadMembers {ks : List Kind} {ms : Members} {e : EnumEntry}
    (h : loadMembers ms = .valid e) (hkind : kindAmong ks ms = some .enumValue) :
    Agrees ks (object ms) e.dump := by
  obtain ⟨f, os, hf, hos, rfl⟩ := Checked.seq_eq_valid_iff.mp (valid_of_model h)
  obtain ⟨g, tag, hg, htag, rfl⟩ := Checked.seq_eq_valid_iff.mp hf
  obtain ⟨name, hname, rfl⟩ := Checked.map_eq_valid_iff.mp hg
  refine agrees_of_model h hkind rfl (.cons ⟨rfl, ?_⟩ (.cons ⟨rfl, ?_⟩ (.cons ⟨rfl, ?_⟩ .nil)))
  · exact carries_of_required hname fun _ _ => agrees_of_asString
  · exact carries_of_required htag fun _ _ hv => .int (denotes_of_asInteger hv)
  · exact OptionSetting.carries_of_loadAll hos

theorem EnumItem.agrees_of_load {v : Json} {i : EnumItem} (h : load v = .valid i) :
    Agrees Kind.enumItems v i.dump := by
  refine agrees_of_asTagged h (fun _ _ => rfl) ?_
  intro ms _ m hm _ hkind hload
  simp only [List.mem_cons, List.not_mem_nil, or_false] at hm
  rcases hm with rfl | rfl
  · obtain ⟨o, ho, rfl⟩ := Checked.map_eq_valid_iff.mp hload
    exact OptionSetting.agrees_of_loadMembers ho hkind
  · obtain ⟨e, he, rfl⟩ := Checked.map_eq_valid_iff.mp hload
    exact EnumEntry.agrees_of_loadMembers he hkind

theorem Enumeration.agrees_of_loadMembers {ks : List Kind} {ms : Members} {e : Enumeration}
    (h : loadMembers ms = .valid e) (hkind : kindAmong ks ms = some .enum) :
    Agrees ks (object ms) e.dump := by
  obtain ⟨f, body, hf, hbody, rfl⟩ := Checked.seq_eq_valid_iff.mp (valid_of_model h)
  obtain ⟨name, hname, rfl⟩ := Checked.map_eq_valid_iff.mp hf
  refine agrees_of_model h hkind rfl (.cons ⟨rfl, ?_⟩ (.cons ⟨rfl, ?_⟩ .nil))
  · exact carries_of_required hname fun _ _ => agrees_of_asString
  · exact carries_of_defaulted (fun body => array (body.map EnumItem.dump)) hbody
      fun _ _ hv => agrees_of_asList hv fun _ _ _ => EnumItem.agrees_of_load

/-! ## 5. Messages -/

theorem FieldModifier.agrees_of_load {ks : List Kind} {v : Json} {m : Option FieldModifier}
    (h : load v = .valid m) : Agrees ks v (ofOption (m.map name)) := by
  unfold load at h
  split at h
  · obtain rfl := Checked.valid.inj h
    exact .null
  · obtain ⟨m, hm, rfl⟩ := Checked.map_eq_valid_iff.mp h
    exact agrees_of_asChoice name_of_ofName? hm

theorem Field.agrees_of_loadMembers {ks : List Kind} {ms : Members} {f : Field}
    (h : loadMembers ms = .valid f) (hkind : kindAmong ks ms = some .field) :
    Agrees ks (object ms) f.dump := by
  obtain ⟨g, os, hg, hos, rfl⟩ := Checked.seq_eq_valid_iff.mp (valid_of_model h)
  obtain ⟨g', tag, hg', htag, rfl⟩ := Checked.seq_eq_valid_iff.mp hg
  obtain ⟨l, name, hl, hname, rfl⟩ := Checked.seq_eq_valid_iff.mp hg'
  obtain ⟨l', type, hl', htype, rfl⟩ := Checked.seq_eq_valid_iff.mp hl
  obtain ⟨modifier, hmodifier, rfl⟩ := Checked.map_eq_valid_iff.mp hl'
  refine agrees_of_model h hkind rfl (.cons ⟨rfl, ?_⟩ (.cons ⟨rfl, ?_⟩ (.cons ⟨rfl, ?_⟩
    (.cons ⟨rfl, ?_⟩ (.cons ⟨rfl, ?_⟩ .nil)))))
  · exact carries_of_defaulted (fun m => ofOption (m.map FieldModifier.name)) hmodifier
      fun _ _ => FieldModifier.agrees_of_load
  · exact carries_of_required htype fun _ _ => TypeRef.agrees_of_load
  · exact carries_of_required hname fun _ _ => agrees_of_asString
  · exact carries_of_required htag fun _ _ hv => .int (denotes_of_asInteger hv)
  · exact OptionSetting.carries_of_loadAll hos

/-- What stands in a message, once the messages in it are dealt with. -/
theorem MessageItem.agrees_of_messages {v : Json} {i : MessageItem}
    (hmessage : ∀ ms m, sizeOf ms < sizeOf v → Message.loadMembers ms = .valid m →
      kindAmong Kind.messageItems ms = some .message →
      Agrees Kind.messageItems (object ms) m.dump)
    (h : load v = .valid i) : Agrees Kind.messageItems v i.dump := by
  refine agrees_of_asTagged h (fun _ _ => rfl) ?_
  intro ms hms m hm _ hkind hload
  simp only [List.mem_cons, List.not_mem_nil, or_false] at hm
  rcases hm with rfl | rfl | rfl | rfl
  · obtain ⟨o, ho, rfl⟩ := Checked.map_eq_valid_iff.mp hload
    exact OptionSetting.agrees_of_loadMembers ho hkind
  · obtain ⟨m, hm, rfl⟩ := Checked.map_eq_valid_iff.mp hload
    exact hmessage ms m hms hm hkind
  · obtain ⟨e, he, rfl⟩ := Checked.map_eq_valid_iff.mp hload
    exact Enumeration.agrees_of_loadMembers he hkind
  · obtain ⟨f, hf, rfl⟩ := Checked.map_eq_valid_iff.mp hload
    exact Field.agrees_of_loadMembers hf hkind

/-- A message, by induction on the size of the object that it is loaded from. -/
theorem Message.agrees_of_loadMembers {ks : List Kind} (ms : Members) (m : Message)
    (h : loadMembers ms = .valid m) (hkind : kindAmong ks ms = some .message) :
    Agrees ks (object ms) m.dump := by
  have hmodel := h
  rw [loadMembers] at hmodel
  obtain ⟨f, body, hf, hbody, rfl⟩ := Checked.seq_eq_valid_iff.mp (valid_of_model hmodel)
  obtain ⟨name, hname, rfl⟩ := Checked.map_eq_valid_iff.mp hf
  rw [dump_eq]
  refine agrees_of_model hmodel hkind rfl (.cons ⟨rfl, ?_⟩ (.cons ⟨rfl, ?_⟩ .nil))
  · exact carries_of_required hname fun _ _ => agrees_of_asString
  · refine carries_of_defaulted (fun body => array (body.map MessageItem.dump)) hbody
      fun v hv hlist => agrees_of_asList hlist fun w hw i hi => ?_
    refine MessageItem.agrees_of_messages (fun ms' m' hms' hm' hkind' => ?_) hi
    have hsize : sizeOf ms' < sizeOf ms := Nat.lt_trans hms' (Nat.lt_trans hw hv)
    exact agrees_of_loadMembers ms' m' hm' hkind'
termination_by sizeOf ms

/-! ## 6. Statements and documents -/

theorem Import.agrees_of_loadModifier {ks : List Kind} {v : Json} {isPublic : Bool}
    (h : loadModifier v = .valid isPublic) :
    Agrees ks v (if isPublic then .string publicWord else .null) := by
  unfold loadModifier at h
  split at h
  · obtain rfl := Checked.valid.inj h
    exact .null
  · obtain ⟨s, rfl, hs⟩ := exists_of_asChoice h
    split at hs
    · next hword =>
      obtain rfl := Option.some.inj hs
      rw [hword]
      exact .string publicWord
    · exact absurd hs (by simp)

theorem Import.agrees_of_loadMembers {ks : List Kind} {ms : Members} {i : Import}
    (h : loadMembers ms = .valid i) (hkind : kindAmong ks ms = some .importDecl) :
    Agrees ks (object ms) i.dump := by
  obtain ⟨f, isPublic, hf, hpublic, rfl⟩ := Checked.seq_eq_valid_iff.mp (valid_of_model h)
  obtain ⟨path, hpath, rfl⟩ := Checked.map_eq_valid_iff.mp hf
  refine agrees_of_model h hkind rfl (.cons ⟨rfl, ?_⟩ (.cons ⟨rfl, ?_⟩ .nil))
  · exact carries_of_required hpath fun _ _ => agrees_of_asString
  · exact carries_of_defaulted
      (fun isPublic : Bool => if isPublic then Json.string publicWord else .null) hpublic
      fun _ _ => agrees_of_loadModifier

theorem Statement.agrees_of_load {v : Json} {s : Statement} (h : load v = .valid s) :
    Agrees Kind.statements v s.dump := by
  refine agrees_of_asTagged h (fun _ _ => rfl) ?_
  intro ms _ m hm _ hkind hload
  simp only [List.mem_cons, List.not_mem_nil, or_false] at hm
  rcases hm with rfl | rfl | rfl | rfl | rfl | rfl
  · obtain ⟨value, hvalue, rfl⟩ := Checked.map_eq_valid_iff.mp hload
    refine agrees_of_model hvalue hkind rfl (.cons ⟨rfl, ?_⟩ .nil)
    exact carries_of_required (valid_of_model hvalue) fun _ _ => agrees_of_asString
  · obtain ⟨name, hname, rfl⟩ := Checked.map_eq_valid_iff.mp hload
    refine agrees_of_model hname hkind rfl (.cons ⟨rfl, ?_⟩ .nil)
    exact carries_of_required (valid_of_model hname) fun _ _ => agrees_of_asString
  · obtain ⟨i, hi, rfl⟩ := Checked.map_eq_valid_iff.mp hload
    exact Import.agrees_of_loadMembers hi hkind
  · obtain ⟨o, ho, rfl⟩ := Checked.map_eq_valid_iff.mp hload
    exact OptionSetting.agrees_of_loadMembers ho hkind
  · obtain ⟨m, hm, rfl⟩ := Checked.map_eq_valid_iff.mp hload
    exact Message.agrees_of_loadMembers ms m hm hkind
  · obtain ⟨e, he, rfl⟩ := Checked.map_eq_valid_iff.mp hload
    exact Enumeration.agrees_of_loadMembers he hkind

theorem Document.agrees_of_load {v : Json} {d : Document} (h : load v = .valid d) :
    Agrees [.document] v d.dump := by
  obtain ⟨ms, rfl, hload⟩ := exists_of_asObject h
  have hkind := kindAmong_of_ofThisKind (exists_of_model hload).1
  obtain ⟨statements, hstatements, rfl⟩ := Checked.map_eq_valid_iff.mp (valid_of_model hload)
  refine agrees_of_model hload hkind rfl (.cons ⟨rfl, ?_⟩ .nil)
  exact carries_of_defaulted (fun ss => array (ss.map Statement.dump)) hstatements
    fun _ _ hv => agrees_of_asList hv fun _ _ _ => Statement.agrees_of_load

/-! ## 7. Keys that no class has -/

namespace Json

/-- The kinds that may stand under a key of an object, where the object has to be of one of some
kinds itself. -/
def kindsUnder (ks : List Kind) (ms : Members) (key : String) : List Kind :=
  ((kindAmong ks ms).map fun k => k.under key).getD []

/-- Something stands inside a document, at any depth, where an object has to be of one of some
kinds. -/
inductive Stands (v : Json) : List Kind → Json → Prop
  | root : Stands v [.document] v
  | item {ks : List Kind} {items : List Json} {u : Json} (h : Stands v ks (array items))
      (hu : u ∈ items) : Stands v ks u
  | member {ks : List Kind} {ms : Members} {key : String} {u : Json}
      (h : Stands v ks (object ms)) (hu : find? key ms = some u) :
      Stands v (kindsUnder ks ms key) u

/-- An object inside a document has a key that its class does not have, or it has a key and is of
no class that may stand there. -/
def HasUnknownKey (v : Json) : Prop :=
  ∃ ks ms key, Stands v ks (object ms) ∧ key ∈ ms.map Prod.fst ∧
    ∀ k, kindAmong ks ms = some k → key ∉ k.keys

theorem Agrees.exists_item {ks : List Kind} {items : List Json} {w u : Json}
    (h : Agrees ks (.array items) w) (hu : u ∈ items) : ∃ w', Agrees ks u w' := by
  cases h with
  | int h => cases h
  | bool h => cases h
  | @array _ _ ws hlength hitems =>
    obtain ⟨i, hi, rfl⟩ := List.mem_iff_getElem.mp hu
    have hi' : i < ws.length := hlength ▸ hi
    exact ⟨ws[i], hitems i _ _ (List.getElem?_eq_getElem hi) (List.getElem?_eq_getElem hi')⟩

theorem Agrees.exists_kind {ks : List Kind} {ms : Members} {w : Json}
    (h : Agrees ks (.object ms) w) :
    ∃ k, kindAmong ks ms = some k ∧ (∀ key ∈ ms.map Prod.fst, key ∈ k.keys) ∧
      ∀ key u, find? key ms = some u → ∃ w', Agrees (k.under key) u w' := by
  cases h with
  | int h => cases h
  | bool h => cases h
  | @object _ k _ ws hkind hclass _ hknown hsaid _ =>
    refine ⟨k, hkind, hknown, fun key u hu => ?_⟩
    have hkey := hknown key (mem_keys_of_find? hu)
    rw [← hclass] at hkey
    obtain ⟨w', hw'⟩ := exists_find?_of_mem hkey
    exact ⟨w', hsaid key u w' hu hw'⟩

/-- Whatever stands inside a value that agrees with a dump agrees with something itself. -/
theorem Stands.exists_agrees {v w u : Json} {ks : List Kind} (hw : Agrees [.document] v w)
    (h : Stands v ks u) : ∃ w', Agrees ks u w' := by
  induction h with
  | root => exact ⟨w, hw⟩
  | item _ hu ih =>
    obtain ⟨w', hw'⟩ := ih
    exact hw'.exists_item hu
  | @member ks ms key u _ hu ih =>
    obtain ⟨w', hw'⟩ := ih
    obtain ⟨k, hkind, -, hmembers⟩ := hw'.exists_kind
    rw [kindsUnder, hkind]
    exact hmembers key u hu

/-- An object inside a value that agrees with a dump has no keys but those of its class. -/
theorem Stands.exists_kind {v w : Json} {ks : List Kind} {ms : Members}
    (hw : Agrees [.document] v w) (h : Stands v ks (object ms)) :
    ∃ k, kindAmong ks ms = some k ∧ ∀ key ∈ ms.map Prod.fst, key ∈ k.keys := by
  obtain ⟨w', hw'⟩ := h.exists_agrees hw
  obtain ⟨k, hkind, hknown, -⟩ := hw'.exists_kind
  exact ⟨k, hkind, hknown⟩

theorem Agrees.not_hasUnknownKey {v w : Json} (h : Agrees [.document] v w) :
    ¬ v.HasUnknownKey := by
  rintro ⟨ks, ms, key, hstands, hkey, hunknown⟩
  obtain ⟨k, hkind, hknown⟩ := hstands.exists_kind h
  exact hunknown k hkind (hknown key hkey)

end Json

namespace Document

/-- An artifact with an unknown key inside its document is refused. -/
theorem exists_error_of_hasUnknownKey {text : String} {ms : Members} {v : Json}
    (hread : read text = .ok (.object ms)) (hv : find? "document" ms = some v)
    (hunknown : v.HasUnknownKey) : ∃ e, deserialize text = .error (.artifact e) := by
  cases hvalue : ofArtifact (.object ms) with
  | error e => exact ⟨e, by simp [deserialize, hread, hvalue, Except.mapError]⟩
  | ok d =>
    obtain ⟨ms', v', hms, hv', hload⟩ := exists_of_ofArtifact hvalue
    obtain rfl := Json.object.inj hms
    obtain rfl := Option.some.inj (hv.symm.trans hv')
    exact absurd hunknown (agrees_of_load hload).not_hasUnknownKey

/-- **Loading drops, reorders and invents nothing.**  What is accepted as a document agrees with
the dump of the document at every depth, the document of an artifact is loaded from one of its
members, and an unknown key anywhere in that member makes reading the artifact fail. -/
theorem load_faithful :
    (∀ v d, load v = .valid d → Agrees [.document] v d.dump) ∧
      (∀ text d, deserialize text = .ok d → ∃ ms v, read text = .ok (.object ms) ∧
        find? "document" ms = some v ∧ load v = .valid d) ∧
      ∀ text ms v, read text = .ok (.object ms) → find? "document" ms = some v →
        v.HasUnknownKey → ∃ e, deserialize text = .error (.artifact e) := by
  refine ⟨fun v d h => agrees_of_load h, fun text d h => ?_, fun text ms v hread hv hunknown => ?_⟩
  · obtain ⟨value, hread, hvalue⟩ := exists_of_deserialize h
    obtain ⟨ms, v, rfl, hv, hload⟩ := exists_of_ofArtifact hvalue
    exact ⟨ms, v, hread, hv, hload⟩
  · exact exists_error_of_hasUnknownKey hread hv hunknown

/-- The members of a document whose scalars are written generously, with keys left out wherever
they may be. -/
def laxMembers : Members :=
  [("statements", .array [
    .object [("value", .object [("value", .string " +0_07.0"), ("kind", .string "numeric")]),
      ("kind", .string "option"), ("name", .string "o"), ("is_extension", .string "Yes")],
    .object [("kind", .string "enum"), ("name", .string "E"), ("body", .array [
      .object [("kind", .string "enum_value"), ("name", .string "A"), ("tag", .bool true),
        ("options", .array [.object [("name", .string "p"),
          ("value", .object [("kind", .string "boolean"), ("value", .int 1)])]])]])]])]

/-- What they say. -/
def laxDocument : Document :=
  ⟨[.setting ⟨"o", true, none, .numeric 7⟩,
    .enumeration ⟨"E", [.entry ⟨"A", 1, [⟨"p", false, none, .boolean true⟩]⟩]⟩]⟩

/-- The members of a package statement that has a key too many. -/
def strayPackage : Members :=
  [("kind", .string "package"), ("name", .string "a"), ("public", .bool true)]

/-- The members of a document with that package statement. -/
def strayMembers : Members := [("statements", .array [.object strayPackage])]

/-- The members of an artifact that holds an object. -/
def artifactMembers (ms : Members) : Members :=
  [("v", .string artifactVersion), ("document", .object ms)]

theorem load_faithful_lax :
    (Agrees [.document] (.object laxMembers) laxDocument.dump ∧
      ∃ ms v, read (object (artifactMembers laxMembers)).written = .ok (.object ms) ∧
        find? "document" ms = some v ∧ load v = .valid laxDocument) ∧
      (object strayMembers).HasUnknownKey ∧
      ∃ e, deserialize (object (artifactMembers strayMembers)).written = .error (.artifact e) := by
  obtain ⟨hload, hread, hunknown⟩ := load_faithful
  have hlax : read (object (artifactMembers laxMembers)).written =
      .ok (object (artifactMembers laxMembers)) :=
    read_written (by simp [artifactMembers, laxMembers, Regular, MembersRegular, AllRegular])
      (by decide +kernel)
  have hstray : read (object (artifactMembers strayMembers)).written =
      .ok (object (artifactMembers strayMembers)) :=
    read_written (by simp [artifactMembers, strayMembers, strayPackage, Regular, MembersRegular,
      AllRegular]) (by decide +kernel)
  have hroot : Stands (object strayMembers) [.document] (.object strayMembers) := .root
  have hlist : Stands (object strayMembers) (kindsUnder [.document] strayMembers "statements")
      (.array [.object strayPackage]) := hroot.member rfl
  have hkey : (object strayMembers).HasUnknownKey := by
    refine ⟨_, _, "public", .item hlist List.mem_cons_self, by decide, fun k hk => ?_⟩
    obtain rfl : Kind.packageDecl = k := Option.some.inj hk
    decide
  refine ⟨⟨hload _ _ rfl, hread _ _ ?_⟩, hkey, hunknown _ _ _ hstray rfl hkey⟩
  rw [deserialize, hlax]
  rfl

end Document
end SchemaLang
