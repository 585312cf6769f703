/-
# Documents are exact

Statements and whole texts.  The one expectation that depends on where it is asked for is the
identifier of a syntax statement: it is met by a string that holds a name, behind `syntax =` at the
start of a line.  Statements are therefore exact behind complete lines, and every round of a
document is behind complete lines.

The result is `exact_document`: whatever the grammar replies about a whole text is exact for the
language of the documents of the dialect, with nothing behind it.
-/
import SchemaLang.Proofs.Grammar.Exact.Productions

namespace SchemaLang.Grammar

open Text SchemaLang.Grammar.Parser Computability

variable {rules : Rules} {d : Dialect} {past : List Lexeme} {K : Language Lexeme}

/-! ## 1. Statements -/

theorem linesLanguage_eq (rules : Rules) : linesLanguage rules = (documentLines rules)∗ := by
  rw [documentLines, kstar_yields]
  rfl

theorem isSyntaxValue_string {s : String} : IsSyntaxValue rules (.string s) ↔
    isName s.toList ∧ ∀ values ∈ rules.syntaxValues, s ∈ values := by
  constructor
  · rintro ⟨v, hv, hvalues⟩
    rw [Lexeme.string.inj hv]
    exact ⟨v.spelled, hvalues⟩
  · rintro ⟨hs, hvalues⟩
    exact ⟨⟨s, hs⟩, rfl, hvalues⟩

theorem IsSyntaxValue.exists_string {l : Lexeme} (h : IsSyntaxValue rules l) :
    ∃ s, l = .string s := by
  obtain ⟨v, rfl, -⟩ := h
  exact ⟨v.text, rfl⟩

theorem isSyntaxValue_legacy {s : String} :
    IsSyntaxValue Dialect.legacy.rules (.string s) ↔ isName s.toList := by
  rw [isSyntaxValue_string]
  exact ⟨And.left, fun hs => ⟨hs, nofun⟩⟩

theorem isSyntaxValue_strict {s : String} :
    IsSyntaxValue Dialect.strict.rules (.string s) ↔ s ∈ ["proto2", "proto3"] := by
  have hname : ∀ s ∈ ["proto2", "proto3"], isName s.toList := by decide
  rw [isSyntaxValue_string]
  exact ⟨fun hs => hs.2 _ rfl, fun hs => ⟨hname s hs, fun _ e => Option.some.inj e ▸ hs⟩⟩

/-- The legacy dialect asks for a name, the strict one for one of two values. -/
theorem exact_syntaxValue [Productive K] (h : AwaitsSyntaxValue d.rules past) :
    Exact d.rules past (one (IsSyntaxValue d.rules)) K (syntaxValue d.rules) := by
  cases d with
  | legacy =>
    refine exact_stringWhere (fun s => ?_) (fun _ => IsSyntaxValue.exists_string) {
      asks := by simp
      met := ?_
      used := ?_ }
    · rw [isSyntaxValue_legacy]
    · rintro _ ⟨v, rfl, -⟩
      exact ⟨.identifier, by simp, .inr ⟨h, v.text, rfl, v.spelled⟩⟩
    · intro e he
      obtain rfl : e = .identifier := by simpa using he
      exact ⟨_, ⟨Word.sample, rfl, nofun⟩, .inr ⟨h, _, rfl, Word.sample.spelled⟩⟩
  | strict =>
    refine exact_stringWhere (fun s => ?_) (fun _ => IsSyntaxValue.exists_string) {
      asks := by simp
      met := ?_
      used := ?_ }
    · rw [isSyntaxValue_strict, List.contains_iff_mem]
    · intro l hl
      obtain ⟨s, rfl⟩ := hl.exists_string
      exact ⟨.literal s, List.mem_map_of_mem (isSyntaxValue_strict.mp hl), rfl⟩
    · intro e he
      obtain ⟨s, hs, rfl⟩ := List.mem_map.mp he
      exact ⟨_, isSyntaxValue_strict.mpr hs, rfl⟩

instance : Productive (one (IsSyntaxValue d.rules)) := by
  refine ⟨_, .string "proto2", isSyntaxValue_string.mpr ⟨by decide, ?_⟩, rfl⟩
  cases d <;> decide

/-- A syntax statement is exact at the start of a line. -/
theorem exact_syntaxStatement [Productive K] (hpast : past ∈ linesLanguage d.rules) :
    Exact d.rules past (syntaxStatements d.rules) K (syntaxStatement d.rules) := by
  refine (exact_keyword _).andThen fun _ u hu => ?_
  refine (exact_mark _).andThen fun _ v hv => ?_
  refine (exact_syntaxValue ?_).andThen fun _ _ _ => (exact_mark _).map
  rw [mem_the_iff.mp hu, mem_the_iff.mp hv, List.append_assoc]
  exact ⟨past, hpast, rfl⟩

theorem exact_packageStatement [Productive K] (budget : Nat) :
    Exact rules past packageStatements K (packageStatement budget) := by
  refine (exact_keyword _).andThen fun _ _ _ => ?_
  refine (exact_path (endsPaths_the_mul (by simp)) budget).andThen fun _ _ _ => ?_
  exact (exact_mark _).map

/-- The modifiers of an import are exact in front of words that `public` does not begin. -/
theorem exact_importModifier [Productive K] (hK : ¬ Begins K (.keyword .kwPublic))
    (budget : Nat) : Exact rules past (importModifiers rules) K (importModifier rules budget) := by
  have hpublic : ∀ {l M}, Begins (the (.keyword .kwPublic)) l → ¬ Begins M (.keyword .kwPublic) →
      ¬ Begins M l := fun hl hM => by rwa [begins_the.mp hl]
  have hmore : Productive
      (if rules.repeatsImportModifier then (the (.keyword .kwPublic))∗ else 1) := by
    split <;> infer_instance
  refine Exact.optional_andThen nil_notMem_one (fun l hl => ?_) (exact_keyword _)
    (fun _ _ _ => ?_) (exact_succeed false)
  · rw [one_mul]
    exact hpublic hl hK
  · show Exact _ _ _ _ (ite _ _ _)
    split
    · exact (exact_many nil_notMem_one (fun l hl => hpublic hl hK) (fun _ _ => exact_keyword _)
        budget).map
    · exact exact_succeed true

instance (rules : Rules) : Productive (importModifiers rules) := ⟨[], .inr rfl⟩

theorem exact_importStatement [Productive K] (budget : Nat) :
    Exact rules past (importStatements rules) K (importStatement rules budget) := by
  refine (exact_keyword _).andThen fun _ _ _ => ?_
  refine (exact_importModifier (fun h => ?_) budget).andThen fun _ _ _ => ?_
  · rw [mul_assoc] at h
    obtain ⟨p, hp⟩ := begins_one.mp (begins_mul_of_nil_notMem nil_notMem_one h)
    exact absurd hp (by simp [ImportPath.lexeme])
  refine exact_importPath.andThen fun _ _ _ => (exact_mark _).map

/-- **A statement is exact at the start of a line.** -/
theorem exact_statement [Productive K] (hpast : past ∈ linesLanguage d.rules) (budget : Nat) :
    Exact d.rules past (statements d.rules) K (statement d.rules budget) := by
  have hline : ∀ w ∈ statements d.rules, ∃ l : DocumentLine, l.lexemes = w := by
    intro w hw
    obtain ⟨l, -, rfl⟩ : w ∈ documentLines d.rules := by
      rw [documentLines_eq]
      exact .inr hw
    exact ⟨l, rfl⟩
  have hcuts : Cuts DocumentLine.lexemes DocumentLine.preferred := DocumentLine.cuts
  refine (exact_syntaxStatement hpast).map.orElse_of_cuts hcuts (fun w hw => hline w (.inl hw))
    (fun w hw => hline w (.inr hw)) ?_
  refine (exact_packageStatement budget).map.orElse_of_cuts hcuts
    (fun w hw => hline w (.inr (.inl hw))) (fun w hw => hline w (.inr (.inr hw))) ?_
  refine (exact_importStatement budget).map.orElse_of_cuts hcuts
    (fun w hw => hline w (.inr (.inr (.inl hw)))) (fun w hw => hline w (.inr (.inr (.inr hw)))) ?_
  refine (exact_optionStatement budget).map.orElse_of_cuts hcuts
    (fun w hw => hline w (.inr (.inr (.inr (.inl hw)))))
    (fun w hw => hline w (.inr (.inr (.inr (.inr hw))))) ?_
  exact (exact_message budget past K).map.orElse_of_cuts hcuts
    (fun w hw => hline w (.inr (.inr (.inr (.inr (.inl hw))))))
    (fun w hw => hline w (.inr (.inr (.inr (.inr (.inr hw)))))) (exact_enumeration budget).map

/-! ## 2. Whole texts -/

/-- A line of a document is exact behind complete lines. -/
theorem exact_documentLine [Productive K] (hpast : past ∈ linesLanguage d.rules) (budget : Nat) :
    Exact d.rules past (documentLines d.rules) K (lineOr (statement d.rules budget)) := by
  have hcuts : Cuts DocumentLine.lexemes DocumentLine.preferred := DocumentLine.cuts
  have hline : ∀ w ∈ the .newline + statements d.rules, ∃ l : DocumentLine, l.lexemes = w := by
    rw [← documentLines_eq]
    rintro _ ⟨l, -, rfl⟩
    exact ⟨l, rfl⟩
  rw [documentLines_eq]
  exact exact_newline.map.orElse_of_cuts hcuts (fun w hw => hline w (.inl hw))
    (fun w hw => hline w (.inr hw)) (exact_statement hpast budget).map

theorem nil_notMem_documentLines : [] ∉ documentLines rules := by
  rintro ⟨l, -, e⟩
  exact l.lexemes_ne_nil e

/-- The end of the text is exact where nothing may follow. -/
theorem exact_endOfText : Exact rules past 1 1 endOfText := by
  have hend : ∀ t, MayFollow (1 * 1 : Language Lexeme) [] t ↔ t = none := by
    intro t
    rw [one_mul]
    cases t with
    | none => simp [MayFollow, Language.mem_one]
    | some l => simp [MayFollow, Language.mem_one]
  rintro ⟨i, s⟩ hc
  cases s with
  | fault e => exact ⟨rfl, [], by simp [TokenStream.lexemes, TokenStream.toList, Language.mem_one]⟩
  | done p => exact exact_succeed () ⟨i, .done p⟩ hc
  | token t rest =>
    refine ⟨[], _, {
      reads := .refl _
      index := rfl
      found := rfl
      rejected := fun h => absurd ((hend _).mp h) (by simp)
      inside := ⟨[], rfl⟩
      asks := by simp
      met := fun t ht => ⟨.endOfText, by simp, (hend t).mp ht⟩
      used := fun e he => ⟨none, ?_, (hend none).mpr rfl⟩ }⟩
    obtain rfl : e = .endOfText := by simpa using he
    rfl

theorem not_begins_one {l : Lexeme} : ¬ Begins 1 l := by
  rintro ⟨w, hw⟩
  exact absurd hw (by simp [Language.mem_one])

/-! ### Regrouping steps -/

theorem Miss.merge_assoc (a b c : Miss) : (a.merge b).merge c = a.merge (b.merge c) := by
  unfold Miss.merge
  split_ifs <;> simp_all <;> omega

theorem Miss.both_assoc (a b c : Option Miss) :
    Miss.both (Miss.both a b) c = Miss.both a (Miss.both b c) := by
  cases a <;> cases b <;> cases c <;> simp [Miss.both, Miss.after, Miss.merge_assoc]

theorem Reply.behind_behind {α : Type} (a b : Option Miss) (r : Reply α) :
    (r.behind b).behind a = r.behind (Miss.both a b) := by
  cases r with
  | ok value next miss => simp [Reply.behind, Miss.both_assoc]
  | fail m =>
    have h := Miss.both_assoc a b (some m)
    exact congrArg Reply.fail (Option.some.inj h.symm)
  | interrupted cause => rfl
  | exhausted => rfl

theorem andThen_assoc {α β γ : Type} (p : Parser α) (f : α → Parser β) (g : β → Parser γ) :
    andThen (andThen p f) g = andThen p fun a => andThen (f a) g := by
  funext c
  unfold andThen
  cases p c with
  | ok a mid miss =>
    dsimp only
    cases f a mid with
    | ok b next miss' => exact (Reply.behind_behind miss miss' _).symm
    | fail m => rfl
    | interrupted cause => rfl
    | exhausted => rfl
  | fail m => rfl
  | interrupted cause => rfl
  | exhausted => rfl

theorem succeed_andThen {α β : Type} (a : α) (f : α → Parser β) : andThen (succeed a) f = f a := by
  funext c
  unfold andThen succeed
  dsimp only
  cases f a c with
  | ok b next miss => cases miss <;> rfl
  | fail m => rfl
  | interrupted cause => rfl
  | exhausted => rfl

/-- What a document says once its lines are read. -/
def finish (lines : List (Option Statement)) : Parser Document :=
  andThen endOfText fun _ => succeed { statements := lines.filterMap id }

theorem exact_finish (lines : List (Option Statement)) :
    Exact rules past 1 1 (finish lines) := exact_endOfText.map

/-- The lines of a document, and what is made of them. -/
theorem document_eq (rules : Rules) (budget : Nat) : document rules budget =
    andThen (many budget (lineOr (statement rules budget))) fun lines =>
      if lines.isEmpty && !rules.allowsEmptyDocument then
        andThen refuse fun (_ : Unit) => finish lines
      else finish lines := by
  unfold document
  refine congrArg (andThen _) ?_
  funext lines
  split <;> rfl

theorem exact_lines [Productive K] (hK : ∀ l, Begins (documentLines d.rules) l → ¬ Begins K l)
    (hpast : past ∈ linesLanguage d.rules) (budget : Nat) (budget' : Nat) :
    Exact d.rules past (documentLines d.rules)∗ K
      (many budget (lineOr (statement d.rules budget'))) := by
  refine exact_many nil_notMem_documentLines hK (fun u hu => exact_documentLine ?_ budget') budget
  rw [linesLanguage_eq] at hpast ⊢
  rw [← kstar_mul_kstar]
  exact Language.append_mem_mul hpast hu

theorem Stuck.le {L : Language Lexeme} {c : Cursor} {m : Miss} (h : Stuck rules past L K c m) :
    c.index ≤ m.index := by
  obtain ⟨ts, mid, h⟩ := h
  rw [h.index]
  exact h.reads.le

theorem Stuck.exists_sight {L : Language Lexeme} {c : Cursor} {m : Miss}
    (h : Stuck rules past L K c m) : ∃ x, c.ahead.sight? = some x := by
  obtain ⟨ts, mid, h⟩ := h
  cases ts with
  | nil =>
    obtain rfl := h.reads.eq_of_nil
    exact ⟨_, h.found⟩
  | cons t ts => exact ⟨_, h.reads.sight?_of_cons⟩

theorem refuse_andThen {α β : Type} (f : α → Parser β) : andThen refuse f = refuse := by
  funext c
  unfold andThen refuse look
  cases c.ahead <;> rfl

/-- To refuse adds nothing to what was missed before. -/
theorem refuse_behind {α : Type} {c : Cursor} {m : Miss} {x : Sighting}
    (hx : c.ahead.sight? = some x) (hm : c.index ≤ m.index) :
    ((refuse : Parser α) c).behind (some m) = .fail m := by
  have hrefuse : (refuse : Parser α) c = .fail ⟨c.index, x, []⟩ := by
    unfold refuse look
    cases hs : c.ahead with
    | done p =>
      rw [hs] at hx
      rw [← Option.some.inj hx]
    | fault e =>
      rw [hs] at hx
      exact absurd hx (by simp [TokenStream.sight?])
    | token t rest =>
      rw [hs] at hx
      rw [← Option.some.inj hx]
  rw [hrefuse]
  rcases Nat.lt_or_eq_of_le hm with hlt | heq
  · simp [Reply.behind, Miss.after, Miss.merge, hlt, Nat.not_lt.mpr hm]
  · simp [Reply.behind, Miss.after, Miss.merge, heq]

/-- **A whole text is exact** for the documents of the dialect, with nothing behind it. -/
theorem exact_document (d : Dialect) (budget : Nat) :
    Exact d.rules [] (documents d.rules) 1 (document d.rules budget) := by
  have hpast : [] ∈ linesLanguage d.rules := ⟨[], by simp, rfl⟩
  have hone : ∀ l, Begins (documentLines d.rules) l → ¬ Begins (1 * 1 : Language Lexeme) l :=
    fun l _ => by
      rw [one_mul]
      exact not_begins_one
  rw [document_eq]
  cases hempty : d.rules.allowsEmptyDocument with
  | true =>
    rw [documents_eq_kstar hempty, ← mul_one (documentLines d.rules)∗]
    refine (exact_lines hone hpast _ _).andThen fun lines _ _ => ?_
    simp only [Bool.not_true, Bool.and_false, Bool.false_eq_true, if_false]
    exact exact_finish lines
  | false =>
    cases budget with
    | zero => exact fun _ _ => trivial
    | succ budget =>
      have hsplit : documentLines d.rules * (documentLines d.rules)∗ =
          documentLines d.rules * ((documentLines d.rules)∗ * 1) + 0 := by
        rw [add_zero, mul_one]
      rw [documents_eq_mul hempty, hsplit, many, andThen_assoc]
      refine Exact.optional_of_miss nil_notMem_documentLines (fun l _ h => ?_)
        (exact_documentLine hpast _) (fun a u hu => ?_) fun c m _ _ hm => ?_
      · rw [zero_mul] at h
        obtain ⟨w, hw⟩ := h
        exact hw
      · simp only [andThen_assoc, succeed_andThen]
        refine (exact_lines hone ?_ _ _).andThen fun lines _ _ => ?_
        · rw [linesLanguage_eq, kstar_eq_mul_add]
          exact .inl ⟨u, hu, [], Language.nil_mem_kstar _, List.append_nil u⟩
        · exact exact_finish (a :: lines)
      · -- nothing was read, so the line that was missed is what the report is about
        obtain ⟨x, hx⟩ := hm.exists_sight
        simp only [succeed_andThen, List.isEmpty_nil, Bool.not_false, Bool.and_self, if_true,
          refuse_andThen, refuse_behind hx hm.le]
        rw [add_zero]
        exact hm

end SchemaLang.Grammar
