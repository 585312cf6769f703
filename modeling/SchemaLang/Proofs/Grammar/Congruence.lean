/-
# Relations that the grammar keeps

Every rule is put together from a few combinators.  So a relation between two copies of a rule that
the combinators keep is kept by every production and by the grammar as a whole, and a fact about
whole texts takes one lemma a combinator.  `Congruence` says what there is to show.

Two rules judge numerals, which is more than to look at what stands there: their digits are read,
and there may be too many of them.  They are in the list by themselves, so that a relation may treat
numerals as it likes; all other rules refuse a numeral whatever its digits are.

The two copies may have different allowances.  Where one of them is used up nothing can be said
any more, so the relation has to hold there by itself.

The statements go through what is built from the combinators first and the productions after them,
in the order of their definitions.
-/
import Mathlib.Data.List.Forall2
import SchemaLang.Grammar.Productions

namespace SchemaLang.Grammar

open Text SchemaLang.Grammar.Parser

/-! ## 1. What there is to show -/

/-- A relation between rules that the combinators keep. -/
structure Congruence (R : ∀ {α : Type}, Parser α → Parser α → Prop) : Prop where
  exhausted : ∀ {α : Type} (p : Parser α), R (fun _ => .exhausted) p
  to_exhausted : ∀ {α : Type} {p p' : Parser α}, R p p' → R p fun _ => .exhausted
  succeed : ∀ {α : Type} (a : α), R (succeed a) (succeed a)
  look : ∀ {α : Type} (judge : Option Lexeme → Except (List Expectation) α)
    (expected : List Expectation), (∀ ds, judge (some (.integer ds)) = .error expected) →
    R (look judge) (look judge)
  tag : R tag tag
  constant : R constant constant
  andThen : ∀ {α β : Type} {p p' : Parser α} {f f' : α → Parser β}, R p p' →
    (∀ a, R (f a) (f' a)) → R (andThen p f) (andThen p' f')
  orElse : ∀ {α : Type} {p p' q q' : Parser α}, R p p' → R q q' → R (orElse p q) (orElse p' q')

namespace Congruence

variable {α β : Type} {R : ∀ {α : Type}, Parser α → Parser α → Prop} (h : Congruence @R)

include h

/-- Two allowances are spent alike, until one of them is used up. -/
theorem of_steps (p p' : Nat → Parser α) (hp : p 0 = fun _ => .exhausted)
    (hp' : p' 0 = fun _ => .exhausted)
    (step : ∀ b b', R (p b) (p' b') → R (p (b + 1)) (p' (b' + 1))) (b b' : Nat) :
    R (p b) (p' b') := by
  induction b generalizing b' with
  | zero =>
    rw [hp]
    exact h.exhausted _
  | succ b ih =>
    cases b' with
    | zero =>
      rw [hp']
      exact h.to_exhausted (step b 0 (ih 0))
    | succ b' => exact step b b' (ih b')

theorem refuse : R (refuse : Parser α) refuse := h.look _ _ fun _ => rfl

theorem lexeme (expected : List Expectation) (f : Lexeme → Option α)
    (hf : ∀ ds, f (.integer ds) = none) : R (lexeme expected f) (lexeme expected f) :=
  h.look _ expected fun ds => by simp only [hf, Option.elim_none]

theorem endOfText : R endOfText endOfText := h.look _ _ fun _ => rfl

theorem firstOf {ps ps' : List (Parser α)} (hps : List.Forall₂ (@R α) ps ps') :
    R (firstOf ps) (firstOf ps') := by
  induction hps with
  | nil => exact h.refuse
  | cons hp hps ih =>
    cases hps with
    | nil => exact hp
    | cons hq hrest => exact h.orElse hp ih

/-- What a rule found is only wrapped up. -/
theorem wrap {p p' : Parser α} (hp : R p p') (f : α → β) :
    R (Parser.andThen p fun a => Parser.succeed (f a))
      (Parser.andThen p' fun a => Parser.succeed (f a)) :=
  h.andThen hp fun _ => h.succeed _

theorem optional {p p' : Parser α} (hp : R p p') : R (optional p) (optional p') :=
  h.orElse (h.wrap hp some) (h.succeed none)

theorem many {p p' : Parser α} (hp : R p p') (b b' : Nat) : R (many b p) (many b' p') :=
  h.of_steps (Parser.many · p) (Parser.many · p') rfl rfl (fun _ _ ih =>
    h.andThen (h.optional hp) fun
      | none => h.succeed _
      | some _ => h.wrap ih _) b b'

theorem eachAfter {lead lead' : Parser β} {p p' : Parser α} (hl : R lead lead') (hp : R p p')
    (b b' : Nat) : R (eachAfter lead p b) (eachAfter lead' p' b') :=
  h.of_steps (Parser.eachAfter lead p) (Parser.eachAfter lead' p') rfl rfl (fun _ _ ih =>
    h.andThen (h.optional hl) fun
      | none => h.succeed _
      | some _ => h.andThen hp fun _ => h.wrap ih _) b b'

/-! ## 2. Single lexemes, paths and types -/

theorem keyword (k : Keyword) : R (keyword k) (keyword k) := h.lexeme _ _ fun _ => rfl

theorem mark (p : Punct) : R (mark p) (mark p) := h.lexeme _ _ fun _ => rfl

theorem newline : R newline newline := h.lexeme _ _ fun _ => rfl

theorem name : R name name := h.lexeme _ _ fun _ => rfl

theorem stringWhere (passes : String → Bool) (expected : List Expectation) :
    R (stringWhere passes expected) (stringWhere passes expected) := h.look _ _ fun _ => rfl

theorem dotted (b b' : Nat) : R (Parser.eachAfter (Grammar.mark .dot) Grammar.name b)
    (Parser.eachAfter (Grammar.mark .dot) Grammar.name b') :=
  h.eachAfter (h.mark _) h.name b b'

theorem path (b b' : Nat) : R (path b) (path b') :=
  h.andThen h.name fun _ => h.wrap (h.dotted b b') _

theorem primitiveType : R primitiveType primitiveType := h.wrap (h.lexeme _ _ fun _ => rfl) _

theorem mapType {part part' : Parser TypeRef} (hp : R part part') :
    R (mapType part) (mapType part') :=
  h.andThen (h.keyword _) fun _ => h.andThen (h.mark _) fun _ => h.andThen hp fun _ =>
    h.andThen (h.mark _) fun _ => h.andThen hp fun _ => h.wrap (h.mark _) _

theorem namedType (b b' : Nat) : R (namedType b) (namedType b') := h.wrap (h.path b b') _

theorem typeRef (b b' : Nat) : R (typeRef b) (typeRef b') :=
  h.of_steps Grammar.typeRef Grammar.typeRef rfl rfl (fun b b' ih =>
    h.firstOf (.cons h.primitiveType (.cons (h.mapType ih) (.cons (h.namedType b b') .nil)))) b b'

/-! ## 3. Options -/

theorem extensionKey (b b' : Nat) : R (extensionKey b) (extensionKey b') :=
  h.andThen h.name fun _ => h.andThen (h.mark _) fun _ => h.wrap (h.dotted b b') _

theorem optionKey (b b' : Nat) : R (optionKey b) (optionKey b') :=
  h.andThen (h.optional (h.mark _)) fun
    | none => h.wrap h.name _
    | some () => h.extensionKey b b'

theorem setting (b b' : Nat) : R (setting b) (setting b') :=
  h.andThen (h.optionKey b b') fun _ => h.andThen (h.mark _) fun _ => h.wrap h.constant _

theorem optionStatement (b b' : Nat) : R (optionStatement b) (optionStatement b') :=
  h.andThen (h.keyword _) fun _ => h.andThen (h.setting b b') fun _ => h.wrap (h.mark _) _

theorem bracketed (b b' : Nat) : R (bracketed b) (bracketed b') :=
  h.andThen (h.setting b b') fun _ => h.wrap (h.mark _) _

theorem brackets (enabled : Bool) (b b' : Nat) : R (brackets enabled b) (brackets enabled b') := by
  cases enabled with
  | false => exact h.succeed _
  | true => exact h.eachAfter (h.mark _) (h.bracketed b b') b b'

/-! ## 4. Bodies, enumerations and messages -/

theorem lineOr {p p' : Parser α} (hp : R p p') : R (lineOr p) (lineOr p') :=
  h.orElse (h.wrap h.newline _) (h.wrap hp _)

theorem body {p p' : Parser α} (hp : R p p') (b b' : Nat) : R (body b p) (body b' p') :=
  h.andThen (h.mark _) fun _ => h.andThen (h.many (h.lineOr hp) b b') fun _ =>
    h.wrap (h.mark _) _

theorem entry (rules : Rules) (b b' : Nat) : R (entry rules b) (entry rules b') :=
  h.andThen h.name fun _ => h.andThen (h.mark _) fun _ => h.andThen h.tag fun _ =>
    h.andThen (h.brackets _ b b') fun _ => h.wrap (h.mark _) _

theorem enumItem (rules : Rules) (b b' : Nat) : R (enumItem rules b) (enumItem rules b') :=
  h.firstOf (.cons (h.wrap (h.optionStatement b b') _) (.cons (h.wrap (h.entry rules b b') _) .nil))

theorem enumeration (rules : Rules) (b b' : Nat) :
    R (enumeration rules b) (enumeration rules b') :=
  h.andThen (h.keyword _) fun _ => h.andThen h.name fun _ =>
    h.wrap (h.body (h.enumItem rules b b') b b') _

theorem modifier : R modifier modifier := h.optional (h.lexeme _ _ fun _ => rfl)

theorem field (rules : Rules) (b b' : Nat) : R (field rules b) (field rules b') :=
  h.andThen h.modifier fun _ => h.andThen (h.typeRef b b') fun _ => h.andThen h.name fun _ =>
    h.andThen (h.mark _) fun _ => h.andThen h.tag fun _ =>
      h.andThen (h.brackets _ b b') fun _ => h.wrap (h.mark _) _

theorem messageItem (rules : Rules) (b b' : Nat) {nested nested' : Parser Message}
    (hnested : R nested nested') :
    R (messageItem rules b nested) (messageItem rules b' nested') := by
  have hoption := h.wrap (h.optionStatement b b') MessageItem.setting
  have hmessage := h.wrap hnested MessageItem.ofMessage
  have henum := h.wrap (h.enumeration rules b b') MessageItem.enumeration
  have hfield := h.wrap (h.field rules b b') MessageItem.field
  refine h.firstOf ?_
  split
  · exact .cons hoption (.cons hmessage (.cons henum (.cons hfield .nil)))
  · exact .cons hoption (.cons hmessage (.cons hfield .nil))

theorem message (rules : Rules) (b b' : Nat) : R (message rules b) (message rules b') :=
  h.of_steps (Grammar.message rules) (Grammar.message rules) rfl rfl (fun b b' ih =>
    h.andThen (h.keyword _) fun _ => h.andThen h.name fun _ =>
      h.wrap (h.body (h.messageItem rules b b' ih) b b') _) b b'

/-! ## 5. Statements and documents -/

theorem syntaxValue (rules : Rules) : R (syntaxValue rules) (syntaxValue rules) := by
  unfold Grammar.syntaxValue
  split
  · exact h.stringWhere _ _
  · exact h.stringWhere _ _

theorem syntaxStatement (rules : Rules) : R (syntaxStatement rules) (syntaxStatement rules) :=
  h.andThen (h.keyword _) fun _ => h.andThen (h.mark _) fun _ =>
    h.andThen (h.syntaxValue rules) fun _ => h.wrap (h.mark _) _

theorem packageStatement (b b' : Nat) : R (packageStatement b) (packageStatement b') :=
  h.andThen (h.keyword _) fun _ => h.andThen (h.path b b') fun _ => h.wrap (h.mark _) _

theorem importModifier (rules : Rules) (b b' : Nat) :
    R (importModifier rules b) (importModifier rules b') := by
  refine h.andThen (h.optional (h.keyword .kwPublic)) fun o => ?_
  cases o with
  | none => exact h.succeed _
  | some u =>
    show R (ite _ _ _) (ite _ _ _)
    split
    · exact h.wrap (h.many (h.keyword _) b b') _
    · exact h.succeed _

theorem importStatement (rules : Rules) (b b' : Nat) :
    R (importStatement rules b) (importStatement rules b') :=
  h.andThen (h.keyword _) fun _ => h.andThen (h.importModifier rules b b') fun _ =>
    h.andThen (h.stringWhere _ _) fun _ => h.wrap (h.mark _) _

theorem statement (rules : Rules) (b b' : Nat) : R (statement rules b) (statement rules b') := by
  refine h.firstOf (.cons ?_ (.cons ?_ (.cons ?_ (.cons ?_ (.cons ?_ (.cons ?_ .nil))))))
  · exact h.wrap (h.syntaxStatement rules) _
  · exact h.wrap (h.packageStatement b b') _
  · exact h.wrap (h.importStatement rules b b') _
  · exact h.wrap (h.optionStatement b b') _
  · exact h.wrap (h.message rules b b') _
  · exact h.wrap (h.enumeration rules b b') _

/-- **The grammar keeps what its combinators keep.** -/
theorem document (rules : Rules) (b b' : Nat) : R (document rules b) (document rules b') := by
  refine h.andThen (h.many (h.lineOr (h.statement rules b b')) b b') fun lines => ?_
  show R (ite _ _ _) (ite _ _ _)
  split
  · exact h.andThen h.refuse fun _ => h.wrap h.endOfText _
  · exact h.wrap h.endOfText _

end Congruence
end SchemaLang.Grammar
