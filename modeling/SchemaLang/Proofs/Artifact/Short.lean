/-
# Documents that were read are short

An integer of a document comes from a numeral of a schema text, from an integer of an artifact, or
from something in an artifact that is taken for one: a truth value, a floating-point number, a
numeral in a string.  None of them makes an integer that is too long to be written
(`isShortInt_of_asInteger`), so no document that was read holds one.
-/
import SchemaLang.Artifact
import SchemaLang.Proofs.Artifact.Loaded
import SchemaLang.Proofs.Artifact.Scalar
import SchemaLang.Proofs.Document.Written
import SchemaLang.Proofs.Json.Short

namespace SchemaLang

open Text Json

variable {α : Type}

namespace Json

/-! ## 1. Integers -/

theorem isShortInt_of_fitsWord {n : Int} (h : fitsWord n) : isShortInt n := by
  have hword : n.natAbs < tenTo 19 := by
    have hbounds : -wordLimit < n ∧ n < wordLimit := by simpa [fitsWord] using h
    have hlimit : wordLimit < tenTo 19 := by decide
    omega
  exact decide_eq_true (Nat.lt_of_lt_of_le hword (tenTo_le_tenTo (by decide)))

theorem isShortInt_of_asIntegerText {s : String} {n : Int}
    (h : asIntegerText s = .valid n) : isShortInt n := by
  obtain ⟨cs, -, hcs⟩ := exists_of_asIntegerText h
  obtain ⟨negative, ds, k, -, -, hds, hread, rfl⟩ := exists_of_normalNumeral? hcs
  exact isShortInt_of_readNumeral hds hread negative

/-- **Whatever is taken for an integer is short.** -/
theorem isShortInt_of_asInteger {v : Json} {n : Int} (hv : v.isShort)
    (h : asInteger v = .valid n) : isShortInt n := by
  cases v with
  | int k =>
    obtain rfl := Checked.valid.inj h
    exact hv
  | bool b =>
    obtain rfl := Checked.valid.inj h
    exact isShortInt_of_fitsWord (by cases b <;> decide)
  | float x => exact isShortInt_of_fitsWord (of_asIntegerFloat h).2
  | string s => exact isShortInt_of_asIntegerText h
  | null => exact absurd h (by simp [asInteger, Checked.issue])
  | array items => exact absurd h (by simp [asInteger, Checked.issue])
  | object members => exact absurd h (by simp [asInteger, Checked.issue])

/-! ## 2. Dumps -/

@[simp] theorem isShort_ofKind (kind : Kind) (members : Members) :
    (ofKind kind members).isShort = membersShort members := rfl

@[simp] theorem isShort_ofOption (s : Option String) : (ofOption s).isShort := by
  cases s <;> rfl

@[simp] theorem isShort_map {β : Type} {dump : β → Json} {xs : List β} :
    (Json.array (xs.map dump)).isShort ↔ ∀ x ∈ xs, (dump x).isShort := by
  rw [isShort, allShort_iff]
  exact List.forall_mem_map

/-- An integer that is loaded from a short member is short. -/
theorem isShortInt_of_required {ms : Members} {key : String} {n : Int} (hms : membersShort ms)
    (h : required ms key (fun v _ => asInteger v) = .valid n) : isShortInt n := by
  obtain ⟨v, _, hv, hn⟩ := exists_of_required h
  exact isShortInt_of_asInteger (isShort_of_find? hms hv) hn

/-- What holds of everything that is loaded from a short item holds of all that is loaded from a
short list. -/
theorem forall_of_defaulted {ms : Members} {key : String}
    {l : (w : Json) → sizeOf w < sizeOf ms → Checked α} {xs : List α} {p : α → Prop}
    (hms : membersShort ms)
    (h : defaulted ms key [] (fun _ hv => asList _ fun w hw => l w (Nat.lt_trans hw hv)) =
      .valid xs)
    (hitem : ∀ w hw x, w.isShort → l w hw = .valid x → p x) : ∀ x ∈ xs, p x := by
  intro x hx
  rcases exists_of_defaulted h with ⟨-, rfl⟩ | ⟨v, _, hv, hload⟩
  · exact absurd hx (by simp)
  · obtain ⟨items, rfl, hall⟩ := exists_of_mem_asList hload
    obtain ⟨w, hw, _, hx⟩ := hall x hx
    have hitems : allShort items := isShort_of_find? hms hv
    exact hitem w _ x (allShort_iff.mp hitems w hw) hx

end Json

/-! ## 3. Types, constants and options -/

@[simp] theorem TypeRef.isShort_dump (t : TypeRef) : t.dump.isShort := by
  induction t with
  | primitive p => rfl
  | map key value hkey hvalue => simp [dump, membersShort, hkey, hvalue]
  | named path => rfl

theorem Constant.isShort_dump_of_load {v : Json} {c : Constant} (hv : v.isShort)
    (h : load v = .valid c) : c.dump.isShort := by
  obtain ⟨ms, _, rfl, m, hm, -, hload⟩ := exists_of_asTagged h
  simp only [List.mem_cons, List.not_mem_nil, or_false] at hm
  rcases hm with rfl | rfl | rfl
  · obtain ⟨n, hn, rfl⟩ := Checked.map_eq_valid_iff.mp (valid_of_model hload)
    have hshort := isShortInt_of_required hv hn
    simpa [dump, membersShort, isShort] using hshort
  · obtain ⟨s, -, rfl⟩ := Checked.map_eq_valid_iff.mp (valid_of_model hload)
    rfl
  · obtain ⟨b, -, rfl⟩ := Checked.map_eq_valid_iff.mp (valid_of_model hload)
    rfl

namespace OptionSetting

theorem isShort_dump_iff {o : OptionSetting} : o.dump.isShort ↔ o.value.dump.isShort := by
  simp [dump, membersShort, isShort]

theorem isShort_dump_of_loadMembers {ms : Members} {o : OptionSetting} (hms : membersShort ms)
    (h : loadMembers ms = .valid o) : o.dump.isShort := by
  obtain ⟨f, c, hf, hc, rfl⟩ := Checked.seq_eq_valid_iff.mp (valid_of_model h)
  obtain ⟨g, path, hg, -, rfl⟩ := Checked.seq_eq_valid_iff.mp hf
  obtain ⟨g', isExtension, hg', -, rfl⟩ := Checked.seq_eq_valid_iff.mp hg
  obtain ⟨name, -, rfl⟩ := Checked.map_eq_valid_iff.mp hg'
  obtain ⟨v, _, hv, hc⟩ := exists_of_required hc
  exact isShort_dump_iff.mpr (Constant.isShort_dump_of_load (isShort_of_find? hms hv) hc)

@[simp] theorem isShort_dumpAll {os : List OptionSetting} :
    (dumpAll os).isShort ↔ ∀ o ∈ os, o.dump.isShort :=
  isShort_map

theorem isShort_dump_of_loadAll {ms : Members} {os : List OptionSetting} (hms : membersShort ms)
    (h : loadAll ms = .valid os) : ∀ o ∈ os, o.dump.isShort := by
  refine forall_of_defaulted (l := fun w _ => asObject w loadMembers) hms h ?_
  intro w _ o hw ho
  obtain ⟨ms, rfl, ho⟩ := exists_of_asObject ho
  exact isShort_dump_of_loadMembers hw ho

end OptionSetting

/-! ## 4. Enumerations -/

namespace EnumEntry

theorem isShort_dump_iff {e : EnumEntry} :
    e.dump.isShort ↔ isShortInt e.tag ∧ ∀ o ∈ e.options, o.dump.isShort := by
  simp [dump, membersShort, isShort]

theorem isShort_dump_of_loadMembers {ms : Members} {e : EnumEntry} (hms : membersShort ms)
    (h : loadMembers ms = .valid e) : e.dump.isShort := by
  obtain ⟨f, os, hf, hos, rfl⟩ := Checked.seq_eq_valid_iff.mp (valid_of_model h)
  obtain ⟨g, tag, hg, htag, rfl⟩ := Checked.seq_eq_valid_iff.mp hf
  obtain ⟨name, -, rfl⟩ := Checked.map_eq_valid_iff.mp hg
  exact isShort_dump_iff.mpr
    ⟨isShortInt_of_required hms htag, OptionSetting.isShort_dump_of_loadAll hms hos⟩

end EnumEntry

theorem EnumItem.isShort_dump_of_load {v : Json} {i : EnumItem} (hv : v.isShort)
    (h : load v = .valid i) : i.dump.isShort := by
  obtain ⟨ms, _, rfl, m, hm, -, hload⟩ := exists_of_asTagged h
  simp only [List.mem_cons, List.not_mem_nil, or_false] at hm
  rcases hm with rfl | rfl
  · obtain ⟨o, ho, rfl⟩ := Checked.map_eq_valid_iff.mp hload
    exact OptionSetting.isShort_dump_of_loadMembers hv ho
  · obtain ⟨e, he, rfl⟩ := Checked.map_eq_valid_iff.mp hload
    exact EnumEntry.isShort_dump_of_loadMembers hv he

namespace Enumeration

theorem isShort_dump_iff {e : Enumeration} :
    e.dump.isShort ↔ ∀ i ∈ e.body, i.dump.isShort := by
  simp [dump, membersShort, isShort, allShort_iff]

theorem isShort_dump_of_loadMembers {ms : Members} {e : Enumeration} (hms : membersShort ms)
    (h : loadMembers ms = .valid e) : e.dump.isShort := by
  obtain ⟨f, body, hf, hbody, rfl⟩ := Checked.seq_eq_valid_iff.mp (valid_of_model h)
  obtain ⟨name, -, rfl⟩ := Checked.map_eq_valid_iff.mp hf
  refine isShort_dump_iff.mpr ?_
  exact forall_of_defaulted (l := fun w _ => EnumItem.load w) hms hbody
    fun w _ i hw hi => EnumItem.isShort_dump_of_load hw hi

end Enumeration

/-! ## 5. Messages -/

namespace Field

theorem isShort_dump_iff {f : Field} :
    f.dump.isShort ↔ isShortInt f.tag ∧ ∀ o ∈ f.options, o.dump.isShort := by
  simp [dump, membersShort, isShort]

theorem isShort_dump_of_loadMembers {ms : Members} {f : Field} (hms : membersShort ms)
    (h : loadMembers ms = .valid f) : f.dump.isShort := by
  obtain ⟨k, os, hk, hos, rfl⟩ := Checked.seq_eq_valid_iff.mp (valid_of_model h)
  obtain ⟨k', tag, hk', htag, rfl⟩ := Checked.seq_eq_valid_iff.mp hk
  obtain ⟨l, name, hl, -, rfl⟩ := Checked.seq_eq_valid_iff.mp hk'
  obtain ⟨l', type, hl', -, rfl⟩ := Checked.seq_eq_valid_iff.mp hl
  obtain ⟨modifier, -, rfl⟩ := Checked.map_eq_valid_iff.mp hl'
  exact isShort_dump_iff.mpr
    ⟨isShortInt_of_required hms htag, OptionSetting.isShort_dump_of_loadAll hms hos⟩

end Field

theorem Message.isShort_dump_iff {m : Message} :
    m.dump.isShort ↔ ∀ i ∈ m.body, i.dump.isShort := by
  simp [dump, MessageItem.ofMessage, MessageItem.dump, MessageItem.dumpAll_eq_map, membersShort,
    isShort, allShort_iff]

/-- The items of a message, once its messages are dealt with. -/
theorem MessageItem.isShort_dump_of_load {v : Json} {i : MessageItem} (hv : v.isShort)
    (hmessage : ∀ ms m, sizeOf ms < sizeOf v → membersShort ms →
      Message.loadMembers ms = .valid m → m.dump.isShort)
    (h : load v = .valid i) : i.dump.isShort := by
  obtain ⟨ms, hms, rfl, m, hm, -, hload⟩ := exists_of_asTagged h
  simp only [List.mem_cons, List.not_mem_nil, or_false] at hm
  rcases hm with rfl | rfl | rfl | rfl
  · obtain ⟨o, ho, rfl⟩ := Checked.map_eq_valid_iff.mp hload
    exact OptionSetting.isShort_dump_of_loadMembers hv ho
  · obtain ⟨m, hm, rfl⟩ := Checked.map_eq_valid_iff.mp hload
    exact hmessage ms m hms hv hm
  · obtain ⟨e, he, rfl⟩ := Checked.map_eq_valid_iff.mp hload
    exact Enumeration.isShort_dump_of_loadMembers hv he
  · obtain ⟨f, hf, rfl⟩ := Checked.map_eq_valid_iff.mp hload
    exact Field.isShort_dump_of_loadMembers hv hf

/-- A message is short, by induction on the size of the object that it is loaded from. -/
theorem Message.isShort_dump_of_loadMembers (ms : Members) (m : Message) (hms : membersShort ms)
    (h : loadMembers ms = .valid m) : m.dump.isShort := by
  rw [loadMembers] at h
  obtain ⟨f, body, hf, hbody, rfl⟩ := Checked.seq_eq_valid_iff.mp (valid_of_model h)
  obtain ⟨name, -, rfl⟩ := Checked.map_eq_valid_iff.mp hf
  refine isShort_dump_iff.mpr ?_
  refine forall_of_defaulted (l := fun w _ => MessageItem.load w) hms hbody ?_
  intro w hw i hshort hi
  refine MessageItem.isShort_dump_of_load hshort (fun ms' m' hlt hms' hm' => ?_) hi
  have hsize : sizeOf ms' < sizeOf ms := Nat.lt_trans hlt hw
  exact Message.isShort_dump_of_loadMembers ms' m' hms' hm'
termination_by sizeOf ms

/-! ## 6. Statements and documents -/

theorem Import.isShort_dump (i : Import) : i.dump.isShort := by
  obtain ⟨path, isPublic⟩ := i
  cases isPublic <;> rfl

theorem Statement.isShort_dump_of_load {v : Json} {s : Statement} (hv : v.isShort)
    (h : load v = .valid s) : s.dump.isShort := by
  obtain ⟨ms, _, rfl, m, hm, -, hload⟩ := exists_of_asTagged h
  simp only [List.mem_cons, List.not_mem_nil, or_false] at hm
  rcases hm with rfl | rfl | rfl | rfl | rfl | rfl
  · obtain ⟨value, -, rfl⟩ := Checked.map_eq_valid_iff.mp hload
    rfl
  · obtain ⟨name, -, rfl⟩ := Checked.map_eq_valid_iff.mp hload
    rfl
  · obtain ⟨i, -, rfl⟩ := Checked.map_eq_valid_iff.mp hload
    exact i.isShort_dump
  · obtain ⟨o, ho, rfl⟩ := Checked.map_eq_valid_iff.mp hload
    exact OptionSetting.isShort_dump_of_loadMembers hv ho
  · obtain ⟨m, hm, rfl⟩ := Checked.map_eq_valid_iff.mp hload
    exact Message.isShort_dump_of_loadMembers ms m hv hm
  · obtain ⟨e, he, rfl⟩ := Checked.map_eq_valid_iff.mp hload
    exact Enumeration.isShort_dump_of_loadMembers hv he

namespace Document

theorem isShort_dump_iff {d : Document} :
    d.dump.isShort ↔ ∀ s ∈ d.statements, s.dump.isShort := by
  simp [dump, membersShort]

/-- A document that is loaded from a short value is short. -/
theorem isShort_dump_of_load {v : Json} {d : Document} (hv : v.isShort) (h : load v = .valid d) :
    d.dump.isShort := by
  obtain ⟨ms, rfl, h⟩ := exists_of_asObject h
  obtain ⟨statements, hstatements, rfl⟩ := Checked.map_eq_valid_iff.mp (valid_of_model h)
  refine isShort_dump_iff.mpr ?_
  exact forall_of_defaulted (l := fun w _ => Statement.load w) hv hstatements
    fun w _ s hw hs => Statement.isShort_dump_of_load hw hs

end Document

/-! ## 7. Documents of schema texts -/

theorem NumberFits.isShortInt {n : Int} (h : NumberFits n) : isShortInt n := by
  have hdigits := (length_toDigits_le_iff (by decide)).mp h.short
  have hnonneg := h.nonneg
  refine decide_eq_true ?_
  omega

theorem OptionSetting.Conforming.isShort_dump {o : OptionSetting} (h : o.Conforming) :
    o.dump.isShort := by
  have hvalue := h.value
  refine isShort_dump_iff.mpr ?_
  cases hc : o.value with
  | numeric n =>
    rw [hc] at hvalue
    have hn := NumberFits.isShortInt hvalue
    simpa [Constant.dump, membersShort, isShort] using hn
  | string text => rfl
  | boolean b => rfl

theorem EnumItem.Conforming.isShort_dump {d : Dialect} {i : EnumItem} (h : i.Conforming d) :
    i.dump.isShort := by
  cases i with
  | setting o => exact OptionSetting.Conforming.isShort_dump h
  | entry e =>
    have he : e.Conforming d := h
    exact EnumEntry.isShort_dump_iff.mpr
      ⟨he.tag.isShortInt, fun o ho => (he.options o ho).isShort_dump⟩

theorem Enumeration.Conforming.isShort_dump {d : Dialect} {e : Enumeration}
    (h : e.Conforming d) : e.dump.isShort :=
  isShort_dump_iff.mpr fun i hi => (h.body i hi).isShort_dump

theorem Field.Conforming.isShort_dump {d : Dialect} {f : Field} (h : f.Conforming d) :
    f.dump.isShort :=
  isShort_dump_iff.mpr ⟨h.tag.isShortInt, fun o ho => (h.options o ho).isShort_dump⟩

namespace MessageItem

mutual

theorem Conforming.isShort_dump {d : Dialect} {i : MessageItem} (h : i.Conforming d) :
    i.dump.isShort := by
  cases i with
  | setting o => exact OptionSetting.Conforming.isShort_dump h
  | message name body =>
    exact Message.isShort_dump_iff (m := ⟨name, body⟩).mpr (AllConforming.isShort_dump h.2)
  | enumeration e => exact Enumeration.Conforming.isShort_dump h.2
  | field f => exact Field.Conforming.isShort_dump h

theorem AllConforming.isShort_dump {d : Dialect} {is : List MessageItem}
    (h : AllConforming d is) : ∀ i ∈ is, i.dump.isShort := by
  cases is with
  | nil => exact fun i hi => absurd hi (by simp)
  | cons i is =>
    intro j hj
    rcases List.mem_cons.mp hj with hij | hj
    · rw [hij]
      exact Conforming.isShort_dump h.1
    · exact AllConforming.isShort_dump h.2 j hj

end

end MessageItem

theorem Statement.Conforming.isShort_dump {d : Dialect} {s : Statement} (h : s.Conforming d) :
    s.dump.isShort := by
  cases s with
  | syntaxDecl value => rfl
  | packageDecl name => rfl
  | importDecl i => exact i.isShort_dump
  | setting o => exact OptionSetting.Conforming.isShort_dump h
  | message m => exact MessageItem.Conforming.isShort_dump h
  | enumeration e => exact Enumeration.Conforming.isShort_dump h

/-- A document that conforms to a dialect is short. -/
theorem Document.Conforming.isShort_dump {d : Dialect} {doc : Document}
    (h : doc.Conforming d) : doc.dump.isShort :=
  isShort_dump_iff.mpr fun s hs => (h s hs).isShort_dump

end SchemaLang
