/-
# Documents survive their artifacts

Four facts meet here.  A document is loaded from its dump; a value without floating-point numbers
and repeated keys is read as it was written, if its integers are short; a dump has neither
(`Document.regular_dump`); and the integers of a document that was read are short, whether it was
read from a schema text or from an artifact.

So a document that was read has an artifact, and the artifact gives the document back
(`Document.IsRead.exists_write`).  The types allow other documents, with integers that no reader
makes; those have no artifact at all (`Document.write_eq_ok_iff`).
-/
import SchemaLang.Artifact
import SchemaLang.Proofs.Artifact.Load
import SchemaLang.Proofs.Artifact.Short
import SchemaLang.Proofs.Document.Text

namespace SchemaLang

open Json

/-! ## 1. Dumps are regular -/

namespace Json

theorem allRegular_iff {vs : List Json} : AllRegular vs ↔ ∀ v ∈ vs, v.Regular := by
  induction vs with
  | nil => simp [AllRegular]
  | cons v vs ih => simp [AllRegular, ih]

@[simp] theorem regular_map {α : Type} {dump : α → Json} {xs : List α} :
    (array (xs.map dump)).Regular ↔ ∀ x ∈ xs, (dump x).Regular := by
  rw [Regular, allRegular_iff]
  exact List.forall_mem_map

/-- An object of a kind is regular if its members are and none of them is a second kind. -/
theorem regular_ofKind {kind : Kind} {members : Members}
    (hkeys : ("kind" :: members.map Prod.fst).Nodup) (hmembers : MembersRegular members) :
    (ofKind kind members).Regular :=
  ⟨hkeys, trivial, hmembers⟩

theorem regular_ofOption (s : Option String) : (ofOption s).Regular := by
  cases s <;> trivial

end Json

theorem TypeRef.regular_dump (t : TypeRef) : t.dump.Regular := by
  induction t with
  | primitive p => exact regular_ofKind (by simp) ⟨trivial, trivial⟩
  | map key value hkey hvalue => exact regular_ofKind (by simp) ⟨hkey, hvalue, trivial⟩
  | named path => exact regular_ofKind (by simp) ⟨trivial, trivial⟩

theorem Constant.regular_dump (c : Constant) : c.dump.Regular := by
  cases c <;> exact regular_ofKind (by simp) ⟨trivial, trivial⟩

theorem OptionSetting.regular_dump (o : OptionSetting) : o.dump.Regular :=
  regular_ofKind (by simp)
    ⟨trivial, trivial, regular_ofOption o.fieldPath, o.value.regular_dump, trivial⟩

theorem OptionSetting.regular_dumpAll (os : List OptionSetting) : (dumpAll os).Regular :=
  regular_map.mpr fun o _ => o.regular_dump

theorem EnumItem.regular_dump (i : EnumItem) : i.dump.Regular := by
  cases i with
  | setting o => exact o.regular_dump
  | entry e =>
    exact regular_ofKind (by simp)
      ⟨trivial, trivial, OptionSetting.regular_dumpAll e.options, trivial⟩

theorem Enumeration.regular_dump (e : Enumeration) : e.dump.Regular :=
  regular_ofKind (by simp) ⟨trivial, regular_map.mpr fun i _ => i.regular_dump, trivial⟩

theorem Field.regular_dump (f : Field) : f.dump.Regular :=
  regular_ofKind (by simp)
    ⟨regular_ofOption _, f.type.regular_dump, trivial, trivial,
      OptionSetting.regular_dumpAll f.options, trivial⟩

namespace MessageItem

mutual

theorem regular_dump (i : MessageItem) : i.dump.Regular := by
  cases i with
  | setting o => exact o.regular_dump
  | message name body =>
    exact regular_ofKind (by simp) ⟨trivial, allRegular_dumpAll body, trivial⟩
  | enumeration e => exact e.regular_dump
  | field f => exact f.regular_dump

theorem allRegular_dumpAll (is : List MessageItem) : AllRegular (dumpAll is) := by
  cases is with
  | nil => trivial
  | cons i is => exact ⟨regular_dump i, allRegular_dumpAll is⟩

end

end MessageItem

theorem Statement.regular_dump (s : Statement) : s.dump.Regular := by
  cases s with
  | syntaxDecl value => exact regular_ofKind (by simp) ⟨trivial, trivial⟩
  | packageDecl name => exact regular_ofKind (by simp) ⟨trivial, trivial⟩
  | importDecl i =>
    obtain ⟨path, isPublic⟩ := i
    cases isPublic <;> exact regular_ofKind (by simp) ⟨trivial, trivial, trivial⟩
  | setting o => exact o.regular_dump
  | message m => exact MessageItem.regular_dump _
  | enumeration e => exact e.regular_dump

namespace Document

theorem regular_dump (d : Document) : d.dump.Regular :=
  regular_ofKind (by simp) ⟨regular_map.mpr fun s _ => s.regular_dump, trivial⟩

/-! ## 2. Artifacts -/

theorem regular_toArtifact (d : Document) : d.toArtifact.Regular := by
  have hkeys : ["v", "document"].Nodup := by decide
  exact ⟨hkeys, trivial, d.regular_dump, trivial⟩

theorem isShort_toArtifact_iff {d : Document} : d.toArtifact.isShort ↔ d.dump.isShort := by
  have hmembers : d.toArtifact.isShort = (true && (d.dump.isShort && true)) := rfl
  rw [hmembers, Bool.true_and, Bool.and_true]

/-- A document is written exactly if its integers are short, and there is one text for it. -/
theorem write_eq_ok_iff {d : Document} {text : String} :
    d.write = .ok text ↔ d.dump.isShort ∧ text = d.serialize := by
  rw [← isShort_toArtifact_iff, write, Json.write]
  cases d.toArtifact.isShort with
  | false => simp
  | true => simpa [serialize] using eq_comm

/-- The document of the artifact of a document. -/
theorem ofArtifact_toArtifact (d : Document) : ofArtifact d.toArtifact = .ok d := by
  have hversion : find? "v" [("v", .string artifactVersion), ("document", d.dump)] =
      some (.string artifactVersion) := rfl
  have hdocument : find? "document" [("v", .string artifactVersion), ("document", d.dump)] =
      some d.dump := rfl
  simp only [ofArtifact, toArtifact, hversion, hdocument, Option.getD_some, if_pos, d.load_dump]

/-- **Reading undoes writing.** -/
theorem deserialize_serialize {d : Document} (h : d.dump.isShort) :
    deserialize d.serialize = .ok d := by
  have hread : read d.serialize = .ok d.toArtifact :=
    read_written d.regular_toArtifact (isShort_toArtifact_iff.mpr h)
  rw [deserialize, hread]
  show (ofArtifact d.toArtifact).mapError _ = _
  rw [ofArtifact_toArtifact]
  rfl

/-- What an artifact holds was loaded from one of its members. -/
theorem exists_of_ofArtifact {value : Json} {d : Document} (h : ofArtifact value = .ok d) :
    ∃ ms v, value = .object ms ∧ find? "document" ms = some v ∧ load v = .valid d := by
  unfold ofArtifact at h
  split at h
  · next ms =>
    split at h
    · split at h
      · split at h
        · exact absurd h (by simp)
        · next v hv =>
          split at h
          · next hload =>
            obtain rfl := Except.ok.inj h
            exact ⟨ms, v, rfl, hv, hload⟩
          · exact absurd h (by simp)
      · exact absurd h (by simp)
    · exact absurd h (by simp)
  · exact absurd h (by simp)

theorem exists_of_deserialize {text : String} {d : Document} (h : deserialize text = .ok d) :
    ∃ value, read text = .ok value ∧ ofArtifact value = .ok d := by
  unfold deserialize at h
  split at h
  · exact absurd h (by simp)
  · exact absurd h (by simp)
  · next value hread =>
    refine ⟨value, hread, ?_⟩
    cases hvalue : ofArtifact value with
    | error e => exact absurd h (by simp [hvalue, Except.mapError])
    | ok d' =>
      rw [hvalue] at h
      obtain rfl := Except.ok.inj h
      rfl

/-- The integers of a document that an artifact holds are short. -/
theorem isShort_dump_of_deserialize {text : String} {d : Document}
    (h : deserialize text = .ok d) : d.dump.isShort := by
  obtain ⟨value, hread, hvalue⟩ := exists_of_deserialize h
  obtain ⟨ms, v, rfl, hv, hload⟩ := exists_of_ofArtifact hvalue
  have hms : membersShort ms := isShort_of_read hread
  exact isShort_dump_of_load (isShort_of_find? hms hv) hload

/-! ## 3. Documents that were read -/

/-- A schema text of some dialect means the document, or an artifact holds it. -/
inductive IsRead (d : Document) : Prop
  | parsed (dialect : Dialect) (source : String) (h : parse dialect source = .ok d)
  | loaded (text : String) (h : deserialize text = .ok d)

theorem IsRead.isShort_dump {d : Document} (h : d.IsRead) : d.dump.isShort := by
  cases h with
  | parsed dialect source h => exact (conforming_of_parse h).isShort_dump
  | loaded text h => exact isShort_dump_of_deserialize h

/-- **Whatever was read has an artifact, and the artifact gives it back.**  What is read from the
artifact is written in the same text, and another document that was read is written in another. -/
theorem IsRead.write_deserialize {d : Document} (h : d.IsRead) :
    d.write = .ok d.serialize ∧ deserialize d.serialize = .ok d ∧
      (∀ d', deserialize d.serialize = .ok d' → d'.write = .ok d.serialize) ∧
      ∀ d', d'.IsRead → d'.write = d.write → d' = d := by
  have hwrite : ∀ {d : Document}, d.IsRead → d.write = .ok d.serialize := by
    intro d h
    exact write_eq_ok_iff.mpr ⟨h.isShort_dump, rfl⟩
  have hback := deserialize_serialize h.isShort_dump
  refine ⟨hwrite h, hback, ?_, ?_⟩
  · intro d' hd'
    obtain rfl := Except.ok.inj (hback.symm.trans hd')
    exact hwrite h
  · intro d' h' heq
    have htext : d'.serialize = d.serialize := by
      rw [hwrite h', hwrite h] at heq
      exact Except.ok.inj heq
    have hback' := deserialize_serialize h'.isShort_dump
    rw [htext] at hback'
    exact Except.ok.inj (hback'.symm.trans hback)

/-- A number with zeros in front is read from a text, and its artifact has it without them. -/
theorem write_option :
    let d : Document := ⟨[.setting ⟨"a", false, none, .numeric 7⟩]⟩
    let text := "\x7b\"v\":\"1\",\"document\":\x7b\"kind\":\"document\",\"statements\":[" ++
      "\x7b\"kind\":\"option\",\"name\":\"a\",\"is_extension\":false,\"field_path\":null," ++
      "\"value\":\x7b\"kind\":\"numeric\",\"value\":7\x7d\x7d]\x7d\x7d"
    parse .legacy "option a = 007;" = .ok d ∧ d.write = .ok text ∧ deserialize text = .ok d := by
  intro d text
  have hscan : scan Dialect.legacy.rules "option a = 007;" =
      .token ⟨.keyword .kwOption, ⟨1, 1⟩⟩ (.token ⟨.identifier "a", ⟨1, 8⟩⟩
        (.token ⟨.punct .equals, ⟨1, 10⟩⟩ (.token ⟨.integer "007", ⟨1, 12⟩⟩
          (.token ⟨.punct .semicolon, ⟨1, 15⟩⟩ (.done ⟨1, 16⟩))))) := by
    rw [scan_eq_scanWithin]
    decide
  have hparse : parse .legacy "option a = 007;" = .ok d := by
    rw [parse, hscan]
    decide
  have htext : d.serialize = text := by decide +kernel
  obtain ⟨hwrite, hback, -⟩ := IsRead.write_deserialize (.parsed .legacy _ hparse)
  rw [htext] at hwrite hback
  exact ⟨hparse, hwrite, hback⟩

end Document
end SchemaLang
