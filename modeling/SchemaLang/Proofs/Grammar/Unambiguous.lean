/-
# The grammar is unambiguous

Two syntax trees with the same leaves are the same tree, up to the one choice that the grammar
leaves open: in a message, `option x = 1 ;` is an option and also a field of type `option`.
`DocumentTree.preferred` makes that choice, and `DocumentTree.preferred_eq_of_lexemes_eq` says
that nothing else is left to choose.

The proof cuts trees off the front of a list of lexemes.  `Cuts f g` says that whatever stands
behind an `f`-list, where it ends can be told, and that `g` of what was cut off is determined.
Lines, options and fields end in a mark of their own and cut without further ado.  Paths and types
have no mark at their end, and cut where what stands behind cannot continue them.
-/
import SchemaLang.Proofs.Grammar.Tree

namespace SchemaLang.Grammar

open Text

variable {α β : Type}

/-! ## 1. Leaves are told apart -/

@[simp] theorem Word.name?_lexeme (w : Word) : w.lexeme.name? = some w.text :=
  Lexeme.name?_ofWord w.text

theorem Word.lexeme_injective {v w : Word} (h : v.lexeme = w.lexeme) : v = w := by
  have hn := congrArg Lexeme.name? h
  rw [v.name?_lexeme, w.name?_lexeme] at hn
  cases v
  cases w
  simpa using hn

@[simp] theorem Word.lexeme_inj {v w : Word} : v.lexeme = w.lexeme ↔ v = w :=
  ⟨lexeme_injective, congrArg _⟩

/-- What serves as no name is the lexeme of no word. -/
theorem Word.lexeme_ne {l : Lexeme} (w : Word) (h : l.name? = none) : w.lexeme ≠ l := by
  rintro rfl
  rw [w.name?_lexeme] at h
  exact absurd h (by simp)

@[simp] theorem Word.lexeme_ne_punct (w : Word) (p : Punct) : w.lexeme ≠ .punct p :=
  w.lexeme_ne rfl

@[simp] theorem Word.punct_ne_lexeme (w : Word) (p : Punct) : .punct p ≠ w.lexeme :=
  (w.lexeme_ne rfl).symm

@[simp] theorem Word.lexeme_ne_newline (w : Word) : w.lexeme ≠ .newline := w.lexeme_ne rfl

@[simp] theorem Word.newline_ne_lexeme (w : Word) : .newline ≠ w.lexeme := (w.lexeme_ne rfl).symm

@[simp] theorem Numeral.lexeme_inj {m n : Numeral} : m.lexeme = n.lexeme ↔ m = n := by
  cases m
  cases n
  simp [lexeme]

theorem Literal.lexeme_injective {a b : Literal} (h : a.lexeme = b.lexeme) : a = b := by
  cases a with
  | number m =>
    cases b with
    | number n => exact congrArg _ (Numeral.lexeme_inj.mp h)
    | text q => exact absurd h (by simp [lexeme, Numeral.lexeme, Quotation.lexeme])
    | boolean b => cases b <;> exact absurd h (by simp [lexeme, Numeral.lexeme])
  | text p =>
    cases b with
    | number n => exact absurd h (by simp [lexeme, Numeral.lexeme, Quotation.lexeme])
    | text q =>
      cases p
      cases q
      simpa [lexeme, Quotation.lexeme] using h
    | boolean b => cases b <;> exact absurd h (by simp [lexeme, Quotation.lexeme])
  | boolean a =>
    cases b with
    | number n => cases a <;> exact absurd h (by simp [lexeme, Numeral.lexeme])
    | text q => cases a <;> exact absurd h (by simp [lexeme, Quotation.lexeme])
    | boolean b => revert h; cases a <;> cases b <;> simp [lexeme]

theorem primitiveKeyword_injective {p q : PrimitiveType}
    (h : primitiveKeyword p = primitiveKeyword q) : p = q := by
  revert h
  cases p <;> cases q <;> simp [primitiveKeyword]

@[simp] theorem primitive?_primitiveKeyword (p : PrimitiveType) :
    primitive? (.keyword (primitiveKeyword p)) = some p := by
  cases p <;> rfl

theorem modifierKeyword_injective {m n : FieldModifier}
    (h : modifierKeyword m = modifierKeyword n) : m = n := by
  revert h
  cases m <;> cases n <;> simp [modifierKeyword]

@[simp] theorem modifier?_modifierKeyword (m : FieldModifier) :
    modifier? (.keyword (modifierKeyword m)) = some m := by
  cases m <;> rfl

/-! ## 2. Cutting lists -/

/-- Where an `f`-list ends can be told from whatever stands behind it, and `g` of the cut is
determined. -/
def Cuts (f : α → List Lexeme) (g : α → β) : Prop :=
  ∀ a b y z, f a ++ y = f b ++ z → g a = g b ∧ y = z

/-- No `f`-list stands at the front. -/
def Stops (f : α → List Lexeme) (z : List Lexeme) : Prop := ∀ a y, f a ++ y ≠ z

theorem Stops.of_head {f : α → List Lexeme} {z : List Lexeme}
    (h : ∀ a, f a ≠ [] ∧ (f a).head? ≠ z.head?) : Stops f z := by
  rintro a y rfl
  obtain ⟨hne, hhead⟩ := h a
  cases hf : f a with
  | nil => exact hne hf
  | cons l ls => simp [hf] at hhead

/-- A row of lists that cut cuts as well, where nothing behind it could belong to the row. -/
theorem Cuts.flatMap {f : α → List Lexeme} {g : α → β} (h : Cuts f g) :
    ∀ {as bs : List α} {y z : List Lexeme}, Stops f y → Stops f z →
      as.flatMap f ++ y = bs.flatMap f ++ z → as.map g = bs.map g ∧ y = z
  | [], [], y, z, _, _, e => ⟨rfl, by simpa using e⟩
  | [], b :: bs, y, z, hy, _, e => by
    rw [List.flatMap_cons, List.append_assoc] at e
    exact absurd e.symm (hy b _)
  | a :: as, [], y, z, _, hz, e => by
    rw [List.flatMap_cons, List.append_assoc] at e
    exact absurd e (hz a _)
  | a :: as, b :: bs, y, z, hy, hz, e => by
    rw [List.flatMap_cons, List.flatMap_cons, List.append_assoc, List.append_assoc] at e
    obtain ⟨hab, e'⟩ := h a b _ _ e
    obtain ⟨hs, hyz⟩ := h.flatMap hy hz e'
    exact ⟨by rw [List.map_cons, List.map_cons, hab, hs], hyz⟩

/-! ## 3. Paths and types -/

theorem cuts_dot : Cuts (fun w : Word => [.punct .dot, w.lexeme]) id := by
  intro v w y z e
  simpa using e

theorem stops_dot {z : List Lexeme} (h : z.head? ≠ some (.punct .dot)) :
    Stops (fun w : Word => [.punct .dot, w.lexeme]) z :=
  .of_head fun _ => ⟨by simp, fun e => h e.symm⟩

theorem dotted_cut {vs ws : List Word} {y z : List Lexeme}
    (hy : y.head? ≠ some (.punct .dot)) (hz : z.head? ≠ some (.punct .dot))
    (e : dotted vs ++ y = dotted ws ++ z) : vs = ws ∧ y = z := by
  simpa using cuts_dot.flatMap (stops_dot hy) (stops_dot hz) e

theorem Path.cut {p q : Path} {y z : List Lexeme}
    (hy : y.head? ≠ some (.punct .dot)) (hz : z.head? ≠ some (.punct .dot))
    (e : p.lexemes ++ y = q.lexemes ++ z) : p = q ∧ y = z := by
  obtain ⟨hhead, htail⟩ := List.cons.inj e
  obtain ⟨htails, hyz⟩ := dotted_cut hy hz htail
  cases p
  cases q
  exact ⟨by simp_all, hyz⟩

/-- A list that can stand behind a type: it goes on neither with the dot of a path nor with the
bracket of a map. -/
def EndsType (z : List Lexeme) : Prop :=
  z.head? ≠ some (.punct .dot) ∧ z.head? ≠ some (.punct .langle)

theorem endsType_word (w : Word) (z : List Lexeme) : EndsType (w.lexeme :: z) := by
  simp [EndsType]

theorem endsType_punct {p : Punct} (z : List Lexeme) (hdot : p ≠ .dot) (hangle : p ≠ .langle) :
    EndsType (.punct p :: z) := by
  simp [EndsType, hdot, hangle]

/-- A map type and a path part company at the second lexeme at the latest. -/
theorem map_ne_path {path : Path} {x z : List Lexeme} (hz : EndsType z) :
    .keyword .kwMap :: .punct .langle :: x ≠ path.lexemes ++ z := by
  intro e
  obtain ⟨-, e⟩ := List.cons.inj e
  cases hp : path.tail with
  | nil =>
    rw [hp] at e
    exact hz.2 (by rw [← show _ = z from e]; rfl)
  | cons w ws =>
    rw [hp] at e
    simp [dotted] at e

theorem primitive_ne_path {p : PrimitiveType} {path : Path} {y z : List Lexeme}
    (free : primitive? path.head.lexeme = none) :
    .keyword (primitiveKeyword p) :: y ≠ path.lexemes ++ z := by
  intro e
  rw [← (List.cons.inj e).1, primitive?_primitiveKeyword] at free
  exact absurd free (by simp)

theorem TypeTree.cut {t u : TypeTree} {y z : List Lexeme} (hy : EndsType y) (hz : EndsType z)
    (e : t.lexemes ++ y = u.lexemes ++ z) : t = u ∧ y = z := by
  induction t generalizing u y z with
  | primitive p =>
    cases u with
    | primitive q =>
      obtain ⟨hk, hyz⟩ := List.cons.inj e
      exact ⟨congrArg _ (primitiveKeyword_injective (Lexeme.keyword.inj hk)), hyz⟩
    | map k v => cases p <;> exact absurd (List.cons.inj e).1 (by simp [primitiveKeyword])
    | named path free => exact absurd e (primitive_ne_path free)
  | map k v ihk ihv =>
    cases u with
    | primitive q => cases q <;> exact absurd (List.cons.inj e).1 (by simp [primitiveKeyword])
    | map k' v' =>
      simp only [lexemes, List.cons_append, List.append_assoc, List.cons.injEq, true_and] at e
      obtain ⟨hk, e⟩ := ihk (endsType_punct _ (by simp) (by simp))
        (endsType_punct _ (by simp) (by simp)) e
      obtain ⟨hv, e⟩ := ihv (endsType_punct _ (by simp) (by simp))
        (endsType_punct _ (by simp) (by simp)) (List.cons.inj e).2
      exact ⟨by rw [hk, hv], (List.cons.inj e).2⟩
    | named path free =>
      simp only [lexemes, List.cons_append] at e
      exact absurd e (map_ne_path hz)
  | named path free =>
    cases u with
    | primitive q => exact absurd e.symm (primitive_ne_path free)
    | map k v =>
      simp only [lexemes, List.cons_append] at e
      exact absurd e.symm (map_ne_path hy)
    | named path' free' =>
      obtain ⟨hp, hyz⟩ := Path.cut hy.1 hz.1 e
      exact ⟨by simp [hp], hyz⟩

/-! ## 4. Options -/

theorem KeyTree.cut {j k : KeyTree} {y z : List Lexeme}
    (hy : y.head? ≠ some (.punct .dot)) (hz : z.head? ≠ some (.punct .dot))
    (e : j.lexemes ++ y = k.lexemes ++ z) : j = k ∧ y = z := by
  cases j with
  | plain v =>
    cases k with
    | plain w => simpa [lexemes] using e
    | extension w suffix => exact absurd (List.cons.inj e).1 (by simp)
  | extension v suffix =>
    cases k with
    | plain w => exact absurd (List.cons.inj e).1 (by simp)
    | extension w suffix' =>
      simp only [lexemes, List.cons_append, List.cons.injEq, true_and] at e
      obtain ⟨hs, hyz⟩ := dotted_cut hy hz e.2
      exact ⟨by rw [Word.lexeme_inj.mp e.1, hs], hyz⟩

theorem SettingTree.cuts : Cuts SettingTree.lexemes id := by
  intro o p y z e
  simp only [lexemes, List.append_assoc] at e
  obtain ⟨hk, e⟩ := KeyTree.cut (by simp) (by simp) e
  simp only [List.cons_append, List.nil_append, List.cons.injEq, true_and] at e
  have hv := Literal.lexeme_injective e.1
  cases o
  cases p
  exact ⟨by simp_all, e.2⟩

/-- What is enclosed in two lexemes cuts where it does without them. -/
theorem Cuts.enclosed {f : α → List Lexeme} {g : α → β} (h : Cuts f g) (first last : Lexeme) :
    Cuts (fun a => first :: (f a ++ [last])) g := by
  intro a b y z e
  simp only [List.cons_append, List.append_assoc, List.cons.injEq, true_and] at e
  obtain ⟨hab, e⟩ := h a b _ _ e
  exact ⟨hab, (List.cons.inj e).2⟩

theorem cuts_statement : Cuts SettingTree.statement id := SettingTree.cuts.enclosed _ _

theorem cuts_bracket : Cuts SettingTree.bracket id := SettingTree.cuts.enclosed _ _

/-- Bracketed options end at a semicolon. -/
theorem bracketRow_cut {os ps : List SettingTree} {y z : List Lexeme}
    (e : bracketRow os ++ .punct .semicolon :: y = bracketRow ps ++ .punct .semicolon :: z) :
    os = ps ∧ y = z := by
  have hstop : ∀ x, Stops SettingTree.bracket (.punct .semicolon :: x) :=
    fun x => .of_head fun o => ⟨by simp [SettingTree.bracket], by simp [SettingTree.bracket]⟩
  obtain ⟨hs, e⟩ := cuts_bracket.flatMap (hstop _) (hstop _) e
  exact ⟨by simpa using hs, (List.cons.inj e).2⟩

/-! ## 5. Enumerations -/

theorem EntryTree.cuts : Cuts EntryTree.lexemes id := by
  intro a b y z e
  simp only [lexemes, List.cons_append, List.append_assoc, List.nil_append, List.cons.injEq,
    true_and, Word.lexeme_inj, Numeral.lexeme_inj] at e
  obtain ⟨hname, htag, e⟩ := e
  obtain ⟨hoptions, hyz⟩ := bracketRow_cut e
  cases a
  cases b
  exact ⟨by simp_all, hyz⟩

/-- What follows the first word tells an option from an entry: an entry has its equals sign
there, an option its key. -/
theorem statement_ne_entry {o : SettingTree} {e : EntryTree} {y z : List Lexeme} :
    o.statement ++ y ≠ e.lexemes ++ z := by
  intro h
  simp only [SettingTree.statement, SettingTree.lexemes, EntryTree.lexemes, List.cons_append,
    List.append_assoc, List.cons.injEq] at h
  cases hk : o.key with
  | plain w => simp [hk, KeyTree.lexemes] at h
  | extension w suffix => simp [hk, KeyTree.lexemes] at h

theorem EnumLine.cuts : Cuts EnumLine.lexemes id := by
  intro a b y z e
  cases a with
  | newline =>
    cases b with
    | newline => exact ⟨rfl, (List.cons.inj e).2⟩
    | setting p => exact absurd (List.cons.inj e).1 (by simp)
    | entry b => exact absurd (List.cons.inj e).1 (by simp)
  | setting o =>
    cases b with
    | newline => exact absurd (List.cons.inj e).1 (by simp)
    | setting p =>
      obtain ⟨hop, hyz⟩ := cuts_statement o p y z e
      exact ⟨congrArg EnumLine.setting hop, hyz⟩
    | entry b => exact absurd e statement_ne_entry
  | entry a =>
    cases b with
    | newline => exact absurd (List.cons.inj e).1 (by simp)
    | setting p => exact absurd e.symm statement_ne_entry
    | entry b =>
      obtain ⟨hab, hyz⟩ := EntryTree.cuts a b y z e
      exact ⟨congrArg EnumLine.entry hab, hyz⟩

theorem EnumLine.stops_rbrace (z : List Lexeme) :
    Stops EnumLine.lexemes (.punct .rbrace :: z) := by
  refine .of_head fun l => ?_
  cases l <;> simp [lexemes, SettingTree.statement, EntryTree.lexemes]

theorem EnumTree.cuts : Cuts EnumTree.lexemes id := by
  intro a b y z e
  simp only [lexemes, List.cons_append, List.append_assoc, List.nil_append, List.cons.injEq,
    true_and, Word.lexeme_inj] at e
  obtain ⟨hbody, e'⟩ :=
    EnumLine.cuts.flatMap (EnumLine.stops_rbrace y) (EnumLine.stops_rbrace z) e.2
  cases a
  cases b
  exact ⟨by simp_all, (List.cons.inj e').2⟩

/-! ## 6. Fields, and the field that reads like an option -/

/-- A field starts with the word of its modifier, or else with its type. -/
theorem FieldTree.lexemes_of_some {f : FieldTree} {m : FieldModifier} (h : f.modifier = some m) :
    f.lexemes = .keyword (modifierKeyword m) :: (f.type.lexemes ++ f.name.lexeme ::
      .punct .equals :: f.tag.lexeme :: (bracketRow f.options ++ [Lexeme.punct .semicolon])) := by
  simp [lexemes, h]

theorem FieldTree.lexemes_of_none {f : FieldTree} (h : f.modifier = none) :
    f.lexemes = f.type.lexemes ++ f.name.lexeme :: .punct .equals :: f.tag.lexeme ::
      (bracketRow f.options ++ [Lexeme.punct .semicolon]) := by
  simp [lexemes, h]

theorem TypeTree.lexemes_ne_nil (t : TypeTree) : t.lexemes ≠ [] := by
  cases t <;> simp [lexemes, Path.lexemes]

/-- A field with a modifier and one without are told apart by the first lexeme. -/
theorem FieldTree.some_ne_none {f g : FieldTree} {m : FieldModifier} (hf : f.modifier = some m)
    (hg : g.modifier = none) {y z : List Lexeme} : f.lexemes ++ y ≠ g.lexemes ++ z := by
  intro e
  have hfree := g.free hg
  rw [lexemes_of_some hf, lexemes_of_none hg] at e
  cases ht : g.type.lexemes with
  | nil => exact g.type.lexemes_ne_nil ht
  | cons l ls =>
    rw [ht, List.append_assoc, List.cons_append, List.cons_append] at e
    rw [ht, ← (List.cons.inj e).1] at hfree
    simpa using hfree _ rfl

theorem FieldTree.cuts : Cuts FieldTree.lexemes id := by
  intro f g y z e
  have rest : f.modifier = g.modifier →
      f.type.lexemes ++ (f.name.lexeme :: .punct .equals :: f.tag.lexeme ::
        (bracketRow f.options ++ .punct .semicolon :: y)) =
      g.type.lexemes ++ (g.name.lexeme :: .punct .equals :: g.tag.lexeme ::
        (bracketRow g.options ++ .punct .semicolon :: z)) → f = g ∧ y = z := by
    intro hm e
    obtain ⟨htype, e⟩ := TypeTree.cut (endsType_word _ _) (endsType_word _ _) e
    simp only [List.cons.injEq, true_and, Word.lexeme_inj, Numeral.lexeme_inj] at e
    obtain ⟨hname, htag, e⟩ := e
    obtain ⟨hoptions, hyz⟩ := bracketRow_cut e
    cases f
    cases g
    exact ⟨by simp_all, hyz⟩
  cases hf : f.modifier with
  | none =>
    cases hg : g.modifier with
    | none =>
      rw [lexemes_of_none hf, lexemes_of_none hg] at e
      exact rest (hf.trans hg.symm) (by simpa using e)
    | some n => exact absurd e.symm (some_ne_none hg hf)
  | some m =>
    cases hg : g.modifier with
    | none => exact absurd e (some_ne_none hf hg)
    | some n =>
      rw [lexemes_of_some hf, lexemes_of_some hg] at e
      obtain ⟨hmn, e⟩ := List.cons.inj e
      have hmn : m = n := modifierKeyword_injective (Lexeme.keyword.inj hmn)
      exact rest (by rw [hf, hg, hmn]) (by simpa using e)

/-- **The one ambiguity.**  An option statement that is also the front of a field is the option
that the field reads like, and both end at the same place. -/
theorem FieldTree.asSetting?_of_statement {o : SettingTree} {f : FieldTree} {y z : List Lexeme}
    (e : o.statement ++ y = f.lexemes ++ z) : f.asSetting? = some o ∧ y = z := by
  cases hm : f.modifier with
  | some m =>
    rw [lexemes_of_some hm] at e
    cases m <;> exact absurd (List.cons.inj e).1 (by simp [modifierKeyword])
  | none =>
    rw [lexemes_of_none hm] at e
    cases ht : f.type with
    | primitive p =>
      rw [ht] at e
      cases p <;> exact absurd (List.cons.inj e).1 (by simp [primitiveKeyword])
    | map k v =>
      rw [ht] at e
      exact absurd (List.cons.inj e).1 (by simp)
    | named path free =>
      simp only [ht, TypeTree.lexemes, Path.lexemes, SettingTree.statement, SettingTree.lexemes,
        List.cons_append, List.append_assoc, List.cons.injEq] at e
      obtain ⟨hhead, e⟩ := e
      cases hp : path.tail with
      | cons w ws =>
        cases hk : o.key <;> simp [hp, hk, dotted, KeyTree.lexemes] at e
      | nil =>
        cases hk : o.key with
        | extension w suffix => simp [hp, hk, dotted, KeyTree.lexemes] at e
        | plain w =>
          simp only [hp, hk, dotted, KeyTree.lexemes, List.flatMap_nil, List.nil_append,
            List.cons_append, List.cons.injEq, true_and, Word.lexeme_inj] at e
          obtain ⟨hname, hvalue, e⟩ := e
          have htype : f.type.lexemes = [.keyword .kwOption] := by
            rw [ht, TypeTree.lexemes, Path.lexemes, hp, ← hhead]
            rfl
          have hliteral : o.value = .number f.tag := Literal.lexeme_injective hvalue
          have hrow : bracketRow [] ++ .punct .semicolon :: y
              = bracketRow f.options ++ .punct .semicolon :: z := by simpa [bracketRow] using e
          obtain ⟨hoptions, hyz⟩ := bracketRow_cut hrow
          refine ⟨?_, hyz⟩
          rw [asSetting?, if_pos ⟨hm, htype, hoptions.symm⟩, ← hname, ← hliteral, ← hk]

/-- The option that a field reads like has the same leaves. -/
theorem FieldTree.statement_of_asSetting? {f : FieldTree} {o : SettingTree}
    (h : f.asSetting? = some o) : o.statement = f.lexemes := by
  unfold asSetting? at h
  split at h
  · next hf =>
    obtain ⟨hm, ht, ho⟩ := hf
    obtain rfl := Option.some.inj h
    rw [lexemes_of_none hm, ht, ho]
    rfl
  · exact absurd h (by simp)

/-! ## 7. Messages -/

namespace MessageLine

theorem stops_rbrace (z : List Lexeme) : Stops lexemes (.punct .rbrace :: z) := by
  refine .of_head fun l => ?_
  cases l with
  | newline => simp [lexemes]
  | setting o => simp [lexemes, SettingTree.statement]
  | message name body => simp [lexemes]
  | enumeration e => simp [lexemes, EnumTree.lexemes]
  | field f =>
    cases hm : f.modifier with
    | some m => simp [lexemes, FieldTree.lexemes_of_some hm]
    | none =>
      cases ht : f.type <;>
        simp [lexemes, FieldTree.lexemes_of_none hm, ht, TypeTree.lexemes, Path.lexemes]

/-- A field that goes on with a name after its first word has no modifier, and its type is that
word. -/
theorem field_of_word {f : FieldTree} {k : Keyword} {w : Word} {x z : List Lexeme}
    (hk : modifier? (.keyword k) = none)
    (hmap : k ≠ .kwMap)
    (e : .keyword k :: w.lexeme :: x = f.lexemes ++ z) :
    ∃ t, x = .punct .equals :: t := by
  cases hm : f.modifier with
  | some m =>
    rw [FieldTree.lexemes_of_some hm] at e
    obtain ⟨hkm, -⟩ := List.cons.inj e
    rw [hkm, modifier?_modifierKeyword] at hk
    exact absurd hk (by simp)
  | none =>
    rw [FieldTree.lexemes_of_none hm] at e
    cases ht : f.type with
    | primitive p =>
      simp only [ht, TypeTree.lexemes, List.cons_append, List.nil_append, List.cons.injEq] at e
      exact ⟨_, e.2.2⟩
    | map key value => simp [ht, TypeTree.lexemes, hmap] at e
    | named path free =>
      cases hp : path.tail with
      | nil =>
        simp only [ht, TypeTree.lexemes, Path.lexemes, hp, dotted, List.flatMap_nil,
          List.cons_append, List.nil_append, List.cons.injEq] at e
        exact ⟨_, e.2.2⟩
      | cons v vs => simp [ht, TypeTree.lexemes, Path.lexemes, hp, dotted] at e

theorem message_ne_field {name : Word} {body : List MessageLine} {f : FieldTree}
    {y z : List Lexeme} : (message name body).lexemes ++ y ≠ f.lexemes ++ z := by
  intro e
  obtain ⟨t, ht⟩ := field_of_word (w := name) rfl (by simp) e
  exact absurd (List.cons.inj ht).1 (by simp)

theorem enumeration_ne_field {d : EnumTree} {f : FieldTree} {y z : List Lexeme} :
    d.lexemes ++ y ≠ f.lexemes ++ z := by
  intro e
  obtain ⟨t, ht⟩ := field_of_word (w := d.name) rfl (by simp) e
  exact absurd (List.cons.inj ht).1 (by simp)

theorem newline_ne_field {f : FieldTree} {y z : List Lexeme} :
    .newline :: y ≠ f.lexemes ++ z := by
  intro e
  cases hm : f.modifier with
  | some m => simp [FieldTree.lexemes_of_some hm] at e
  | none =>
    cases ht : f.type <;>
      simp [FieldTree.lexemes_of_none hm, ht, TypeTree.lexemes, Path.lexemes] at e

/-- Two lines neither of which holds lines: all but the case of two messages. -/
theorem preferred_cut_of_flat {l m : MessageLine} {y z : List Lexeme}
    (hlm : ∀ v body, l = message v body → ∀ w body', m ≠ message w body')
    (e : l.lexemes ++ y = m.lexemes ++ z) : l.preferred = m.preferred ∧ y = z := by
  cases l with
  | newline =>
    cases m with
    | newline => exact ⟨rfl, (List.cons.inj e).2⟩
    | setting o => exact absurd (List.cons.inj e).1 (by simp)
    | message w body => exact absurd (List.cons.inj e).1 (by simp)
    | enumeration d => exact absurd (List.cons.inj e).1 (by simp)
    | field f => exact absurd e newline_ne_field
  | setting o =>
    cases m with
    | newline => exact absurd (List.cons.inj e).1 (by simp)
    | setting p =>
      obtain ⟨hop, hyz⟩ := cuts_statement o p y z e
      exact ⟨congrArg MessageLine.setting hop, hyz⟩
    | message w body => exact absurd (List.cons.inj e).1 (by simp)
    | enumeration d => exact absurd (List.cons.inj e).1 (by simp)
    | field f =>
      obtain ⟨hf, hyz⟩ := FieldTree.asSetting?_of_statement e
      exact ⟨by rw [preferred, preferred, hf]; rfl, hyz⟩
  | message v body =>
    cases m with
    | newline => exact absurd (List.cons.inj e).1 (by simp)
    | setting p => exact absurd (List.cons.inj e).1 (by simp)
    | message w body' => exact absurd rfl (hlm v body rfl w body')
    | enumeration d => exact absurd (List.cons.inj e).1 (by simp)
    | field f => exact absurd e message_ne_field
  | enumeration c =>
    cases m with
    | newline => exact absurd (List.cons.inj e).1 (by simp)
    | setting p => exact absurd (List.cons.inj e).1 (by simp)
    | message w body => exact absurd (List.cons.inj e).1 (by simp)
    | enumeration d =>
      obtain ⟨hcd, hyz⟩ := EnumTree.cuts c d y z e
      exact ⟨congrArg MessageLine.enumeration hcd, hyz⟩
    | field f => exact absurd e enumeration_ne_field
  | field f =>
    cases m with
    | newline => exact absurd e.symm newline_ne_field
    | setting p =>
      obtain ⟨hf, hyz⟩ := FieldTree.asSetting?_of_statement e.symm
      exact ⟨by rw [preferred, preferred, hf]; rfl, hyz.symm⟩
    | message w body => exact absurd e.symm message_ne_field
    | enumeration d => exact absurd e.symm enumeration_ne_field
    | field g =>
      obtain ⟨hfg, hyz⟩ := FieldTree.cuts f g y z e
      exact ⟨congrArg (fun x => (MessageLine.field x).preferred) hfg, hyz⟩

mutual

/-- Lines of messages cut, and all that is left open is whether a field is an option.  The
induction is on the nesting of messages: the bodies of two messages are compared line by line. -/
theorem cuts (l m : MessageLine) (y z : List Lexeme) (e : l.lexemes ++ y = m.lexemes ++ z) :
    l.preferred = m.preferred ∧ y = z := by
  cases l with
  | message v body =>
    cases m with
    | message w body' =>
      simp only [lexemes, List.cons_append, List.append_assoc, List.nil_append, List.cons.injEq,
        true_and, Word.lexeme_inj] at e
      obtain ⟨hbody, hyz⟩ := allCuts body body' y z e.2
      exact ⟨by rw [preferred, preferred, e.1, hbody], hyz⟩
    | _ => exact preferred_cut_of_flat (fun _ _ _ _ _ => by simp) e
  | _ => exact preferred_cut_of_flat (fun _ _ h => absurd h (by simp)) e

theorem allCuts (ls ms : List MessageLine) (y z : List Lexeme)
    (e : allLexemes ls ++ .punct .rbrace :: y = allLexemes ms ++ .punct .rbrace :: z) :
    allPreferred ls = allPreferred ms ∧ y = z := by
  cases ls with
  | nil =>
    cases ms with
    | nil => exact ⟨rfl, (List.cons.inj e).2⟩
    | cons m ms =>
      rw [allLexemes, allLexemes, List.append_assoc] at e
      exact absurd e.symm (stops_rbrace y m _)
  | cons l ls =>
    cases ms with
    | nil =>
      rw [allLexemes, allLexemes, List.append_assoc] at e
      exact absurd e (stops_rbrace z l _)
    | cons m ms =>
      rw [allLexemes, allLexemes, List.append_assoc, List.append_assoc] at e
      obtain ⟨hlm, e⟩ := cuts l m _ _ e
      obtain ⟨hrest, hyz⟩ := allCuts ls ms y z e
      exact ⟨by rw [allPreferred, allPreferred, hlm, hrest], hyz⟩

end

end MessageLine

/-! ## 8. Documents -/

namespace DocumentLine

theorem lexemes_ne_nil (l : DocumentLine) : l.lexemes ≠ [] := by
  cases l <;> simp [lexemes, SettingTree.statement, MessageLine.lexemes, EnumTree.lexemes]

/-- The first lexeme of a line says what kind of line it is. -/
def lead : DocumentLine → Lexeme
  | newline => .newline
  | syntaxDecl _ => .keyword .kwSyntax
  | packageDecl _ => .keyword .kwPackage
  | importDecl _ _ => .keyword .kwImport
  | setting _ => .keyword .kwOption
  | message _ _ => .keyword .kwMessage
  | enumeration _ => .keyword .kwEnum

theorem lexemes_head (l : DocumentLine) : ∃ rest, l.lexemes = l.lead :: rest := by
  cases l <;> exact ⟨_, rfl⟩

theorem lead_eq_of_lexemes {l m : DocumentLine} {y z : List Lexeme}
    (e : l.lexemes ++ y = m.lexemes ++ z) : l.lead = m.lead := by
  obtain ⟨r, hr⟩ := l.lexemes_head
  obtain ⟨s, hs⟩ := m.lexemes_head
  rw [hr, hs] at e
  exact (List.cons.inj e).1

theorem replicate_public_cut {m n : Nat} {p q : ImportPath} {y z : List Lexeme}
    (e : List.replicate m (Lexeme.keyword .kwPublic) ++ p.lexeme :: y
      = List.replicate n (Lexeme.keyword .kwPublic) ++ q.lexeme :: z) : m = n ∧ p = q ∧ y = z := by
  induction m generalizing n with
  | zero =>
    cases n with
    | zero =>
      cases p
      cases q
      simpa [ImportPath.lexeme] using e
    | succ n => simp [List.replicate_succ, ImportPath.lexeme] at e
  | succ m ih =>
    cases n with
    | zero => simp [List.replicate_succ, ImportPath.lexeme] at e
    | succ n =>
      obtain ⟨hmn, h⟩ := ih (by simpa [List.replicate_succ] using e)
      exact ⟨congrArg Nat.succ hmn, h⟩

theorem cuts : Cuts lexemes preferred := by
  intro l m y z e
  have hlead := lead_eq_of_lexemes e
  cases l with
  | newline => cases m <;> simp_all [lead, lexemes]
  | syntaxDecl v =>
    cases m with
    | syntaxDecl w =>
      cases v
      cases w
      simpa [lexemes, preferred] using e
    | _ => simp [lead] at hlead
  | packageDecl p =>
    cases m with
    | packageDecl q =>
      simp only [lexemes, List.cons_append, List.append_assoc, List.cons.injEq, true_and] at e
      obtain ⟨hpq, e⟩ := Path.cut (by simp) (by simp) e
      exact ⟨congrArg packageDecl hpq, (List.cons.inj e).2⟩
    | _ => simp [lead] at hlead
  | importDecl a p =>
    cases m with
    | importDecl b q =>
      simp only [lexemes, List.cons_append, List.append_assoc, List.nil_append, List.cons.injEq,
        true_and] at e
      obtain ⟨hab, hpq, e⟩ := replicate_public_cut e
      exact ⟨by rw [hab, hpq], (List.cons.inj e).2⟩
    | _ => simp [lead] at hlead
  | setting o =>
    cases m with
    | setting p =>
      obtain ⟨hop, hyz⟩ := cuts_statement o p y z e
      exact ⟨congrArg setting hop, hyz⟩
    | _ => simp [lead] at hlead
  | message v body =>
    cases m with
    | message w body' =>
      obtain ⟨hpreferred, hyz⟩ := MessageLine.cuts _ _ y z e
      obtain ⟨hname, hbody⟩ := MessageLine.message.inj hpreferred
      exact ⟨by rw [preferred, preferred, hname, hbody], hyz⟩
    | _ => simp [lead] at hlead
  | enumeration c =>
    cases m with
    | enumeration d =>
      obtain ⟨hcd, hyz⟩ := EnumTree.cuts c d y z e
      exact ⟨congrArg enumeration hcd, hyz⟩
    | _ => simp [lead] at hlead

end DocumentLine

/-- **The grammar is unambiguous**: derivations of the same text agree once every field that
reads like an option is made the option. -/
theorem DocumentTree.preferred_eq_of_lexemes_eq {t u : DocumentTree}
    (h : t.lexemes = u.lexemes) : t.preferred = u.preferred := by
  have hstop : Stops DocumentLine.lexemes [] :=
    fun l y e => l.lexemes_ne_nil (List.append_eq_nil_iff.mp e).1
  have e : t.lexemes ++ [] = u.lexemes ++ [] := by rw [h]
  obtain ⟨hlines, -⟩ := DocumentLine.cuts.flatMap hstop hstop e
  rw [preferred, preferred, hlines]

end SchemaLang.Grammar
