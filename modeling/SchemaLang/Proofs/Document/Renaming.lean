/-
# Renaming

`Document.withNames` puts names in the places of those that a document has, in the order of the
text.  The places are those of the names of a tree, so the first word of a type is none of them.

The grammar does not care which word stands as a name, be it a keyword or not.  A tree with other
words in the places of its names is a tree again, in the same dialect and with the option wherever
the text can be read as one (`DocumentTree.exists_renamed`), and its document has these names.  As
the grammar reads what a tree derives, a name among the tokens may be exchanged for any other word,
and nothing but that name changes in what is read (`ofTokens_withNames`).

Each rule is renamed by itself.  `Puts` says which names it takes and leaves the others to what
stands behind it, so that the rules can be joined without counting names.
-/
import SchemaLang.Proofs.Document.Tree
import SchemaLang.Proofs.Grammar.Derivation
import SchemaLang.Proofs.Grammar.Names

namespace SchemaLang

open Text Grammar

/-! ## 1. Names are put in their places -/

/-- Takes the next one of some names, and stays with the old one when there are no more. -/
def nextName (old : String) : StateM (List String) String :=
  modifyGet fun
    | [] => (old, [])
    | n :: ns => (n, ns)

/-- Puts names in the places of those of a path. -/
def renamePath (path : String) : StateM (List String) String := do
  return joinDots (← (segments path).mapM nextName)

/-- The first name of a type stays. -/
def TypeRef.rename : TypeRef → StateM (List String) TypeRef
  | primitive p => return primitive p
  | map key value => do
    let key ← key.rename
    return map key (← value.rename)
  | named path =>
    match segments path with
    | [] => return named path
    | s :: ss => do return named (joinDots (s :: (← ss.mapM nextName)))

def OptionSetting.rename (o : OptionSetting) : StateM (List String) OptionSetting := do
  let name ← nextName o.name
  match o.fieldPath with
  | none => return { o with name }
  | some path => return { o with name, fieldPath := some (← renamePath path) }

def EnumEntry.rename (e : EnumEntry) : StateM (List String) EnumEntry := do
  let name ← nextName e.name
  return { e with name, options := ← e.options.mapM OptionSetting.rename }

def EnumItem.rename : EnumItem → StateM (List String) EnumItem
  | setting o => return setting (← o.rename)
  | entry e => return entry (← e.rename)

def Enumeration.rename (e : Enumeration) : StateM (List String) Enumeration := do
  let name ← nextName e.name
  return ⟨name, ← e.body.mapM EnumItem.rename⟩

def Field.rename (f : Field) : StateM (List String) Field := do
  let type ← f.type.rename
  let name ← nextName f.name
  return { f with type, name, options := ← f.options.mapM OptionSetting.rename }

namespace MessageItem

mutual

def rename : MessageItem → StateM (List String) MessageItem
  | setting o => return setting (← o.rename)
  | message name body => do
    let name ← nextName name
    return message name (← renameAll body)
  | enumeration e => return enumeration (← e.rename)
  | field f => return field (← f.rename)

def renameAll : List MessageItem → StateM (List String) (List MessageItem)
  | [] => return []
  | i :: is => do
    let i ← rename i
    return i :: (← renameAll is)

end

theorem renameAll_eq (is : List MessageItem) : renameAll is = is.mapM rename := by
  induction is with
  | nil => rfl
  | cons i is ih => rw [renameAll, ih, List.mapM_cons]

end MessageItem

def Statement.rename : Statement → StateM (List String) Statement
  | packageDecl name => return packageDecl (← renamePath name)
  | setting o => return setting (← o.rename)
  | message m => do
    let name ← nextName m.name
    return message ⟨name, ← MessageItem.renameAll m.body⟩
  | enumeration e => return enumeration (← e.rename)
  | s => return s

/-- The document with these names in the places of its own, in the order of the text. -/
def Document.withNames (doc : Document) (ns : List String) : Document :=
  ⟨((doc.statements.mapM Statement.rename).run ns).1⟩

/-! ## 2. What takes which names -/

variable {α β : Type}

/-- Takes these names and no others, and makes this of them. -/
def Puts (m : StateM (List String) α) (ns : List String) (a : α) : Prop :=
  ∀ rest, m.run (ns ++ rest) = pure (a, rest)

theorem Puts.congr {m : StateM (List String) α} {ns ms : List String} {a : α} (h : Puts m ns a)
    (e : ms = ns) : Puts m ms a := e ▸ h

theorem puts_pure (a : α) : Puts (pure a) [] a := fun _ => rfl

theorem Puts.bind {m : StateM (List String) α} {f : α → StateM (List String) β}
    {ns ms : List String} {a : α} {b : β} (hm : Puts m ns a) (hf : Puts (f a) ms b) :
    Puts (m >>= f) (ns ++ ms) b := by
  intro rest
  rw [StateT.run_bind, List.append_assoc, hm]
  exact hf rest

theorem Puts.map {m : StateM (List String) α} {ns : List String} {a : α} (h : Puts m ns a)
    (f : α → β) : Puts (do return f (← m)) ns (f a) := by
  intro rest
  rw [StateT.run_bind, h]
  rfl

theorem puts_nextName (old n : String) : Puts (nextName old) [n] n := fun _ => rfl

theorem Puts.mapM_append {f : α → StateM (List String) β} {as as' : List α} {bs bs' : List β}
    {ns ms : List String} (h : Puts (as.mapM f) ns bs) (h' : Puts (as'.mapM f) ms bs') :
    Puts ((as ++ as').mapM f) (ns ++ ms) (bs ++ bs') := by
  rw [List.mapM_append]
  exact h.bind (h'.map _)

theorem puts_nextNames {olds ns : List String} (h : ns.length = olds.length) :
    Puts (olds.mapM nextName) ns ns := by
  induction olds generalizing ns with
  | nil =>
    obtain rfl := List.length_eq_zero_iff.mp h
    exact puts_pure []
  | cons old olds ih =>
    obtain ⟨n, ns, rfl⟩ := List.exists_cons_of_length_eq_add_one h
    rw [List.mapM_cons]
    exact (puts_nextName old n).bind ((ih (by simpa using h)).map _)

theorem puts_renamePath {v : Word} {vs ws : List Word} (h : ws.length = (v :: vs).length) :
    Puts (renamePath (joinDots (v.text :: vs.map Word.text))) (ws.map Word.text)
      (joinDots (ws.map Word.text)) := by
  unfold renamePath
  rw [segments_joinDots_words]
  exact (puts_nextNames (by simpa using h)).map _

namespace Grammar

/-! ## 3. Trees with other names -/

theorem exists_dottedLeaves {vs : List Word} {ls : List Leaf} (h : AlikeAll (dottedLeaves vs) ls) :
    ∃ ws, ws.length = vs.length ∧ dottedLeaves ws = ls ∧ namesOf ls = ws.map Word.text := by
  induction vs generalizing ls with
  | nil =>
    obtain rfl := alikeAll_nil.mp h
    exact ⟨[], rfl, rfl, rfl⟩
  | cons v vs ih =>
    obtain ⟨-, ⟨w, ms, hms, rfl⟩, rfl⟩ : ∃ ks, (∃ w ms, AlikeAll (dottedLeaves vs) ms ∧
        ks = .name w :: ms) ∧ ls = .other (.punct .dot) :: ks := by
      simpa [dottedLeaves] using h
    obtain ⟨ws, hlength, rfl, hnames⟩ := ih hms
    exact ⟨w :: ws, congrArg (· + 1) hlength, rfl, congrArg (w.text :: ·) hnames⟩

theorem SettingTree.exists_renamed {o : SettingTree} {ls : List Leaf} (h : AlikeAll o.leaves ls) :
    ∃ o' : SettingTree, o'.leaves = ls ∧ Puts o.setting.rename (namesOf ls) o'.setting := by
  obtain ⟨key, value⟩ := o
  obtain ⟨ks, ms, hkey, hvalue, rfl⟩ := alikeAll_append.mp h
  obtain rfl : ms = [.other (.punct .equals), .other value.lexeme] := by simpa using hvalue
  cases key with
  | plain v =>
    obtain ⟨w, rfl⟩ : ∃ w, ks = [.name w] := by simpa [KeyTree.leaves] using hkey
    exact ⟨⟨.plain w, value⟩, rfl, fun rest => rfl⟩
  | extension v vs =>
    obtain ⟨w, ds, hds, rfl⟩ : ∃ w ds, AlikeAll (dottedLeaves vs) ds ∧
        ks = .other (.punct .lparen) :: .name w :: .other (.punct .rparen) :: ds := by
      simpa [KeyTree.leaves] using hkey
    obtain ⟨ws, hlength, rfl, hnames⟩ := exists_dottedLeaves hds
    refine ⟨⟨.extension w ws, value⟩, rfl, ?_⟩
    simp only [namesOf_append, namesOf_other, namesOf_name, namesOf_nil, List.append_nil, hnames]
    cases vs with
    | nil =>
      obtain rfl := List.length_eq_zero_iff.mp hlength
      exact fun rest => rfl
    | cons v' vs =>
      obtain ⟨w', ws, rfl⟩ := List.exists_cons_of_length_eq_add_one hlength
      exact (puts_nextName v.text w.text).bind ((puts_renamePath hlength).map _)

/-- Nothing before and nothing behind names anything. -/
theorem SettingTree.exists_enclosed {o : SettingTree} {ls : List Leaf} {first last : Lexeme}
    (h : AlikeAll (.other first :: (o.leaves ++ [Leaf.other last])) ls) :
    ∃ o' : SettingTree, .other first :: (o'.leaves ++ [Leaf.other last]) = ls ∧
      Puts o.setting.rename (namesOf ls) o'.setting := by
  obtain ⟨ms, hms, rfl⟩ : ∃ ms, AlikeAll o.leaves ms ∧
      ls = .other first :: (ms ++ [Leaf.other last]) := by
    simpa using h
  obtain ⟨o', rfl, ho'⟩ := exists_renamed hms
  exact ⟨o', rfl, by simpa using ho'⟩

/-! ### Rows -/

section Rows

variable {τ α : Type} {P : τ → Prop} {f : τ → List Leaf} {g : τ → List α}
  {rename : α → StateM (List String) α}

/-- Whatever names are put in the places of those of the tree, it stays a tree of that sort, and
its items take these names. -/
def Renamable (P : τ → Prop) (f : τ → List Leaf) (g : τ → List α)
    (rename : α → StateM (List String) α) (t : τ) : Prop :=
  ∀ ls, AlikeAll (f t) ls → ∃ u, P u ∧ f u = ls ∧ Puts ((g t).mapM rename) (namesOf ls) (g u)

theorem puts_singleton {ns : List String} {a b : α} (h : Puts (rename a) ns b) :
    Puts ([a].mapM rename) ns [b] := by
  rw [List.mapM_cons]
  exact h.map (· :: [])

/-- In a row each tree is renamed by itself. -/
theorem exists_renamed_row {ts : List τ} (h : ∀ t ∈ ts, Renamable P f g rename t)
    {ls : List Leaf} (hls : AlikeAll (ts.flatMap f) ls) :
    ∃ us : List τ, us.length = ts.length ∧ (∀ u ∈ us, P u) ∧ us.flatMap f = ls ∧
      Puts ((ts.flatMap g).mapM rename) (namesOf ls) (us.flatMap g) := by
  induction ts generalizing ls with
  | nil =>
    obtain rfl := alikeAll_nil.mp hls
    exact ⟨[], rfl, by simp, rfl, puts_pure []⟩
  | cons t ts ih =>
    rw [List.flatMap_cons] at hls
    obtain ⟨ks, ms, hks, hms, rfl⟩ := alikeAll_append.mp hls
    obtain ⟨u, hu, rfl, hitem⟩ := h t List.mem_cons_self ks hks
    obtain ⟨us, hlength, hus, rfl, hitems⟩ := ih (fun t' ht' => h t' (.tail _ ht')) hms
    refine ⟨u :: us, congrArg (· + 1) hlength, List.forall_mem_cons.mpr ⟨hu, hus⟩, rfl, ?_⟩
    rw [namesOf_append]
    exact hitem.mapM_append hitems

end Rows

theorem exists_renamed_brackets {os : List SettingTree} {ls : List Leaf}
    (h : AlikeAll (os.flatMap SettingTree.bracketLeaves) ls) :
    ∃ os' : List SettingTree, os'.length = os.length ∧
      os'.flatMap SettingTree.bracketLeaves = ls ∧
      Puts ((os.map SettingTree.setting).mapM OptionSetting.rename) (namesOf ls)
        (os'.map SettingTree.setting) := by
  have hone : ∀ o ∈ os, Renamable (fun _ => True) SettingTree.bracketLeaves
      (fun o => [o.setting]) OptionSetting.rename o := by
    intro o _ ks hks
    obtain ⟨o', ho', hputs⟩ := o.exists_enclosed hks
    exact ⟨o', trivial, ho', puts_singleton hputs⟩
  obtain ⟨os', hlength, -, hleaves, hputs⟩ := exists_renamed_row hone h
  rw [← List.map_eq_flatMap, ← List.map_eq_flatMap] at hputs
  exact ⟨os', hlength, hleaves, hputs⟩

/-- What entries and fields have in common. -/
theorem exists_renamed_tagged {v : Word} {n : Numeral} {os : List SettingTree} {ls : List Leaf}
    (h : AlikeAll (taggedLeaves v n os) ls) :
    ∃ (w : Word) (os' : List SettingTree), os'.length = os.length ∧ taggedLeaves w n os' = ls ∧
      ∃ ns, namesOf ls = w.text :: ns ∧
        Puts ((os.map SettingTree.setting).mapM OptionSetting.rename) ns
          (os'.map SettingTree.setting) := by
  obtain ⟨w, ms, hms, rfl⟩ : ∃ w ms, AlikeAll (os.flatMap SettingTree.bracketLeaves) ms ∧
      ls = .name w :: .other (.punct .equals) :: .other n.lexeme ::
        (ms ++ [Leaf.other (.punct .semicolon)]) := by
    simpa [taggedLeaves] using h
  obtain ⟨os', hlength, rfl, hputs⟩ := exists_renamed_brackets hms
  exact ⟨w, os', hlength, rfl, _, by simp, hputs⟩

/-! ### Enumerations -/

theorem EnumLine.renamable {rules : Rules} {l : EnumLine} (h : l.Allowed rules) :
    Renamable (EnumLine.Allowed rules) EnumLine.leaves (fun l => l.item?.toList) EnumItem.rename
      l := by
  intro ls hls
  cases l with
  | newline =>
    obtain rfl : ls = [.other .newline] := by simpa [leaves] using hls
    exact ⟨newline, trivial, rfl, puts_pure []⟩
  | setting o =>
    obtain ⟨o', ho', hputs⟩ := o.exists_enclosed hls
    exact ⟨setting o', trivial, ho', puts_singleton (hputs.map _)⟩
  | entry e =>
    obtain ⟨w, os, hlength, hleaves, ns, hnames, hputs⟩ := exists_renamed_tagged hls
    refine ⟨entry ⟨w, e.tag, os⟩, fun hrules => ?_, hleaves, ?_⟩
    · rw [← List.length_eq_zero_iff, hlength, h hrules]
      rfl
    · rw [hnames]
      exact puts_singleton (((puts_nextName e.name.text w.text).bind (hputs.map _)).map _)

theorem EnumTree.exists_renamed {rules : Rules} {e : EnumTree} (h : e.Allowed rules)
    {ls : List Leaf} (hls : AlikeAll e.leaves ls) :
    ∃ e' : EnumTree, e'.Allowed rules ∧ e'.leaves = ls ∧
      Puts e.enumeration.rename (namesOf ls) e'.enumeration := by
  obtain ⟨w, ms, hms, rfl⟩ : ∃ w ms, AlikeAll (e.body.flatMap EnumLine.leaves) ms ∧
      ls = .other (.keyword .kwEnum) :: .name w :: .other (.punct .lbrace) ::
        (ms ++ [Leaf.other (.punct .rbrace)]) := by
    simpa [leaves] using hls
  obtain ⟨body, -, hallowed, rfl, hputs⟩ :=
    exists_renamed_row (fun l hl => EnumLine.renamable (h l hl)) hms
  rw [← List.filterMap_eq_flatMap_toList, ← List.filterMap_eq_flatMap_toList] at hputs
  refine ⟨⟨w, body⟩, hallowed, rfl, ?_⟩
  exact ((puts_nextName e.name.text w.text).bind (hputs.map _)).congr (by simp)

/-! ### Types and fields -/

namespace TypeTree

theorem exists_leaves (t : TypeTree) :
    ∃ l rest, t.leaves = .other l :: rest ∧ t.lexemes = l :: rest.map Leaf.lexeme := by
  obtain ⟨l, rest, hleaves⟩ : ∃ l rest, t.leaves = .other l :: rest := by
    cases t with
    | primitive p => exact ⟨_, _, rfl⟩
    | map key value => exact ⟨_, _, rfl⟩
    | named path free => exact ⟨_, _, rfl⟩
  exact ⟨l, rest, hleaves, by rw [← t.map_lexeme_leaves, hleaves]; rfl⟩

/-- Types whose leaves are alike start with the same lexeme and are equally long. -/
theorem exists_lexemes_of_alike {t u : TypeTree} (h : AlikeAll t.leaves u.leaves) :
    ∃ l ls ms, t.lexemes = l :: ls ∧ u.lexemes = l :: ms ∧ ls.length = ms.length := by
  obtain ⟨l, rest, ht, hlexemes⟩ := t.exists_leaves
  obtain ⟨l', rest', hu, hlexemes'⟩ := u.exists_leaves
  rw [ht, hu] at h
  obtain ⟨rest'', hrest, heq⟩ := alikeAll_other.mp h
  obtain ⟨hl, rfl⟩ := List.cons.inj heq
  obtain rfl := Leaf.other.inj hl
  refine ⟨l', _, _, hlexemes, hlexemes', ?_⟩
  rw [List.length_map, List.length_map, hrest.length_eq]

theorem exists_renamed {t : TypeTree} {ls : List Leaf} (h : AlikeAll t.leaves ls) :
    ∃ u : TypeTree, u.leaves = ls ∧ Puts t.type.rename (namesOf ls) u.type := by
  induction t generalizing ls with
  | primitive p =>
    obtain rfl : ls = [.other (.keyword (primitiveKeyword p))] := by simpa [leaves] using h
    exact ⟨primitive p, rfl, puts_pure _⟩
  | map key value hkey hvalue =>
    obtain ⟨ks, vs, ⟨hks, hvs⟩, rfl⟩ : ∃ ks vs, (AlikeAll key.leaves ks ∧
        AlikeAll value.leaves vs) ∧ ls = .other (.keyword .kwMap) :: .other (.punct .langle) ::
          (ks ++ .other (.punct .comma) :: (vs ++ [Leaf.other (.punct .rangle)])) := by
      simpa [leaves] using h
    obtain ⟨key', rfl, hkey'⟩ := hkey hks
    obtain ⟨value', rfl, hvalue'⟩ := hvalue hvs
    exact ⟨map key' value', rfl, (hkey'.bind (hvalue'.map _)).congr (by simp)⟩
  | named path free =>
    obtain ⟨ds, hds, rfl⟩ := alikeAll_other.mp h
    obtain ⟨ws, hlength, rfl, hnames⟩ := exists_dottedLeaves hds
    refine ⟨named ⟨path.head, ws⟩ free, rfl, ?_⟩
    have hrename : (named path free).type.rename = do
        return .named (joinDots (path.head.text ::
          (← (path.tail.map Word.text).mapM nextName))) := by
      rw [type, TypeRef.rename, Path.text, segments_joinDots_words]
    rw [hrename, namesOf_other, hnames]
    exact (puts_nextNames (by simpa using hlength)).map _

end TypeTree

/-- A field that does not read like an option does not do so with other names. -/
theorem FieldTree.asSetting?_of_alike {f f' : FieldTree} (hmodifier : f'.modifier = f.modifier)
    (htype : AlikeAll f.type.leaves f'.type.leaves) (hlength : f'.options.length = f.options.length)
    (h : f.asSetting? = none) : f'.asSetting? = none := by
  obtain ⟨l, ls, ms, hls, hms, hsame⟩ := TypeTree.exists_lexemes_of_alike htype
  rw [asSetting?, if_neg]
  rintro ⟨hnone, hoption, hoptions⟩
  obtain ⟨rfl, rfl⟩ := List.cons.inj (hms.symm.trans hoption)
  obtain rfl : ls = [] := List.length_eq_zero_iff.mp hsame
  have hnil : f.options = [] := by
    rw [← List.length_eq_zero_iff, ← hlength, hoptions]
    rfl
  rw [asSetting?, if_pos ⟨hmodifier ▸ hnone, hls, hnil⟩] at h
  exact absurd h (by simp)

theorem FieldTree.exists_renamed {f : FieldTree} {ls : List Leaf} (h : AlikeAll f.leaves ls) :
    ∃ f' : FieldTree, f'.options.length = f.options.length ∧
      (f.asSetting? = none → f'.asSetting? = none) ∧ f'.leaves = ls ∧
      Puts f.field.rename (namesOf ls) f'.field := by
  obtain ⟨ms, ks, hms, hks, rfl⟩ := alikeAll_append.mp h
  obtain ⟨ts, ns, hts, hns, rfl⟩ := alikeAll_append.mp hks
  obtain ⟨type, rfl, htype⟩ := TypeTree.exists_renamed hts
  obtain ⟨w, os, hlength, rfl, names, hnames, hputs⟩ := exists_renamed_tagged hns
  obtain ⟨hmodifier, hnone⟩ : ms = f.modifier.toList.map
      (fun m => .other (.keyword (modifierKeyword m))) ∧ namesOf ms = [] := by
    cases hm : f.modifier with
    | none => simp_all
    | some m => simp_all
  have hfree : f.modifier = none → ∀ l ∈ type.lexemes.head?, modifier? l = none := by
    -- the first lexeme of a type stands as no name, so it is the same one
    obtain ⟨l, ls, ms, hls, hms, -⟩ := TypeTree.exists_lexemes_of_alike hts
    have hf := f.free
    rw [hls] at hf
    rw [hms]
    exact hf
  refine ⟨⟨f.modifier, type, w, f.tag, os, hfree⟩, hlength,
    FieldTree.asSetting?_of_alike rfl hts hlength, by rw [hmodifier]; rfl, ?_⟩
  refine (htype.bind ((puts_nextName f.name.text w.text).bind (hputs.map _))).congr ?_
  rw [namesOf_append, namesOf_append, hnone, hnames]
  rfl

/-! ### Messages -/

namespace MessageLine

theorem exists_of_alike_message {name : Word} {body : List MessageLine} {ls : List Leaf}
    (h : AlikeAll (message name body).leaves ls) :
    ∃ w ms, AlikeAll (allLeaves body) ms ∧ ls = .other (.keyword .kwMessage) :: .name w ::
      .other (.punct .lbrace) :: (ms ++ [Leaf.other (.punct .rbrace)]) := by
  simpa [leaves] using h

mutual

theorem renamable {rules : Rules} (l : MessageLine) (h : l.Read rules) :
    Renamable (Read rules) leaves (fun l => l.item?.toList) MessageItem.rename l := by
  intro ls hls
  obtain ⟨hallowed, hpreferred⟩ := h
  cases l with
  | newline =>
    obtain rfl : ls = [.other .newline] := by simpa [leaves] using hls
    exact ⟨newline, ⟨hallowed, hpreferred⟩, rfl, puts_pure []⟩
  | setting o =>
    obtain ⟨o', ho', hputs⟩ := o.exists_enclosed hls
    exact ⟨setting o', ⟨trivial, rfl⟩, ho', puts_singleton (hputs.map _)⟩
  | message name body =>
    rw [preferred, message.injEq] at hpreferred
    obtain ⟨w, ms, hms, rfl⟩ := exists_of_alike_message hls
    obtain ⟨body', hallowed', hpreferred', rfl, hputs⟩ :=
      exists_renamed_body body hallowed hpreferred.2 hms
    refine ⟨message w body', ⟨hallowed', ?_⟩, rfl, puts_singleton ?_⟩
    · rw [preferred, hpreferred']
    · exact ((puts_nextName name.text w.text).bind (hputs.map _)).congr (by simp)
  | enumeration e =>
    obtain ⟨e', hallowed', rfl, hputs⟩ := EnumTree.exists_renamed hallowed.2 hls
    exact ⟨enumeration e', ⟨⟨hallowed.1, hallowed'⟩, rfl⟩, rfl, puts_singleton (hputs.map _)⟩
  | field f =>
    obtain ⟨f', hlength, hsetting, rfl, hputs⟩ := FieldTree.exists_renamed hls
    refine ⟨field f', ⟨fun hrules => ?_, ?_⟩, rfl, puts_singleton (hputs.map _)⟩
    · rw [← List.length_eq_zero_iff, hlength, hallowed hrules]
      rfl
    · rw [preferred, hsetting (asSetting?_of_preferred hpreferred)]
      rfl

theorem exists_renamed_body {rules : Rules} (body : List MessageLine)
    (hallowed : AllAllowed rules body) (hpreferred : allPreferred body = body) {ls : List Leaf}
    (hls : AlikeAll (allLeaves body) ls) :
    ∃ body', AllAllowed rules body' ∧ allPreferred body' = body' ∧ allLeaves body' = ls ∧
      Puts (MessageItem.renameAll (items body)) (namesOf ls) (items body') := by
  cases body with
  | nil =>
    obtain rfl : ls = [] := by simpa [allLeaves] using hls
    exact ⟨[], trivial, rfl, rfl, puts_pure []⟩
  | cons l body =>
    rw [allPreferred, List.cons.injEq] at hpreferred
    obtain ⟨ks, ms, hks, hms, rfl⟩ := alikeAll_append.mp hls
    obtain ⟨l', ⟨hl', hl''⟩, rfl, hitem⟩ := renamable l ⟨hallowed.1, hpreferred.1⟩ ks hks
    obtain ⟨body', hallowed', hpreferred', rfl, hputs⟩ :=
      exists_renamed_body body hallowed.2 hpreferred.2 hms
    refine ⟨l' :: body', ⟨hl', hallowed'⟩, ?_, rfl, ?_⟩
    · rw [allPreferred, hl'', hpreferred']
    · rw [MessageItem.renameAll_eq] at hputs ⊢
      rw [items, items, namesOf_append]
      exact hitem.mapM_append hputs

end

end MessageLine

/-! ### Documents -/

theorem DocumentLine.renamable {rules : Rules} {l : DocumentLine} (h : l.Read rules) :
    Renamable (DocumentLine.Read rules) DocumentLine.leaves (fun l => l.statement?.toList)
      Statement.rename l := by
  intro ls hls
  cases l with
  | newline =>
    obtain rfl := eq_of_alikeAll_others hls
    exact ⟨newline, h, rfl, puts_pure []⟩
  | syntaxDecl value =>
    obtain rfl := eq_of_alikeAll_others hls
    exact ⟨syntaxDecl value, h, rfl, puts_singleton (puts_pure _)⟩
  | packageDecl path =>
    obtain ⟨w, ds, hds, rfl⟩ : ∃ w ds, AlikeAll (dottedLeaves path.tail) ds ∧
        ls = .other (.keyword .kwPackage) :: .name w ::
          (ds ++ [Leaf.other (.punct .semicolon)]) := by
      simpa [leaves, Path.leaves] using hls
    obtain ⟨ws, hlength, rfl, hnames⟩ := exists_dottedLeaves hds
    refine ⟨packageDecl ⟨w, ws⟩, ⟨trivial, rfl⟩, rfl, puts_singleton ?_⟩
    have hpath : (w :: ws).length = (path.head :: path.tail).length := congrArg (· + 1) hlength
    exact ((puts_renamePath hpath).map _).congr (by simp [hnames])
  | importDecl publics path =>
    obtain rfl := eq_of_alikeAll_others hls
    refine ⟨importDecl publics path, h, rfl, ?_⟩
    exact (puts_singleton (puts_pure _)).congr (namesOf_others _)
  | setting o =>
    obtain ⟨o', ho', hputs⟩ := o.exists_enclosed hls
    exact ⟨setting o', ⟨trivial, rfl⟩, ho', puts_singleton (hputs.map _)⟩
  | message name body =>
    obtain ⟨hallowed, hpreferred⟩ := h
    rw [preferred, message.injEq] at hpreferred
    obtain ⟨w, ms, hms, rfl⟩ := MessageLine.exists_of_alike_message hls
    obtain ⟨body', hallowed', hpreferred', rfl, hputs⟩ :=
      MessageLine.exists_renamed_body body hallowed hpreferred.2 hms
    refine ⟨message w body', ⟨hallowed', ?_⟩, rfl, puts_singleton ?_⟩
    · rw [preferred, hpreferred']
    · exact ((puts_nextName name.text w.text).bind (hputs.map _)).congr (by simp)
  | enumeration e =>
    obtain ⟨e', hallowed', rfl, hputs⟩ := EnumTree.exists_renamed h.1 hls
    exact ⟨enumeration e', ⟨hallowed', rfl⟩, rfl, puts_singleton (hputs.map _)⟩

/-- With other names in the places of its own, a tree is one of the same dialect, and its document
has these names. -/
theorem DocumentTree.exists_renamed {rules : Rules} {t : DocumentTree} (h : t.Allowed rules)
    (hpreferred : t.preferred = t) {ls : List Leaf} (hls : AlikeAll t.leaves ls) :
    ∃ u : DocumentTree, u.Allowed rules ∧ u.preferred = u ∧ u.leaves = ls ∧
      t.document.withNames (namesOf ls) = u.document := by
  have hread : ∀ l ∈ t.lines, l.Read rules := by
    intro l hl
    have hmap := (congrArg lines hpreferred).trans (List.map_id _).symm
    exact ⟨h.lines l hl, List.map_inj_left.mp hmap l hl⟩
  obtain ⟨us, hlength, hus, hleaves, hputs⟩ :=
    exists_renamed_row (fun l hl => DocumentLine.renamable (hread l hl)) hls
  rw [← List.filterMap_eq_flatMap_toList, ← List.filterMap_eq_flatMap_toList] at hputs
  refine ⟨⟨us⟩, ⟨fun l hl => (hus l hl).1, fun hrules hnil => ?_⟩, ?_, hleaves, ?_⟩
  · obtain rfl : us = [] := hnil
    exact h.nonempty hrules (List.length_eq_zero_iff.mp hlength.symm)
  · rw [preferred, List.map_congr_left fun l hl => (hus l hl).2, List.map_id']
  · have hrun := hputs []
    rw [List.append_nil] at hrun
    rw [Document.withNames, document, hrun]
    rfl

end Grammar

/-! ## 4. Keywords are reserved nowhere else -/

theorem ofTokens_ok_iff_derives {d : Dialect} {ts : List Token} {stop : Position} {doc : Document}
    (hts : ∀ t ∈ ts, t.lexeme.WellFormed) :
    Document.ofTokens d.rules (.ofTokens ts stop) = .ok doc ↔
      ∃ t : DocumentTree, t.Derives d (lexemesOf ts) ∧ t.preferred = t ∧ t.document = doc := by
  have hlexemes : (TokenStream.ofTokens ts stop).lexemes = lexemesOf ts := by
    rw [TokenStream.lexemes, TokenStream.toList_ofTokens, lexemesOf]
  have hwell : (TokenStream.ofTokens ts stop).WellFormed := by
    rwa [TokenStream.WellFormed, TokenStream.toList_ofTokens]
  constructor
  · intro h
    obtain ⟨-, t, ht, hpreferred, hdoc⟩ := ofTokens_sound hwell h
    exact ⟨t, hlexemes ▸ ht, hpreferred, hdoc⟩
  · rintro ⟨t, ht, hpreferred, rfl⟩
    have hcomplete := ofTokens_complete hwell (TokenStream.error?_ofTokens ts stop)
      (hlexemes.symm ▸ ht)
    rwa [hpreferred] at hcomplete

/-- **Keywords are reserved nowhere but at the front of a type.**  Tokens that are read are the
leaves of one tree.  Any keyword or identifier may be put in the place of a leaf that stands as a
name: the tokens are read again, and the document is the same but for that name. -/
theorem ofTokens_withNames (d : Dialect) (ts : List Token) (stop : Position) (doc : Document)
    (hts : ∀ t ∈ ts, t.lexeme.WellFormed)
    (h : Document.ofTokens d.rules (.ofTokens ts stop) = .ok doc) :
    ∃ t : DocumentTree, t.Derives d (lexemesOf ts) ∧ t.document = doc ∧
      (∀ u : DocumentTree, u.Derives d (lexemesOf ts) → u.preferred = t) ∧
      t.leaves.map Leaf.lexeme = lexemesOf ts ∧
      ∀ front v behind, t.leaves = front ++ .name v :: behind →
        doc.withNames (namesOf front ++ v.text :: namesOf behind) = doc ∧
        ∀ (tok : Token) (n : String), tok.lexeme.WellFormed → tok.lexeme.name? = some n →
          Document.ofTokens d.rules (.ofTokens (ts.set front.length tok) stop) =
            .ok (doc.withNames (namesOf front ++ n :: namesOf behind)) := by
  obtain ⟨t, ht, hpreferred, rfl⟩ := (ofTokens_ok_iff_derives hts).mp h
  have hunique : ∀ u : DocumentTree, u.Derives d (lexemesOf ts) → u.preferred = t := fun u hu =>
    (DocumentTree.preferred_eq_of_lexemes_eq (hu.lexemes.trans ht.lexemes.symm)).trans hpreferred
  have hlexemes : t.leaves.map Leaf.lexeme = lexemesOf ts :=
    t.map_lexeme_leaves.trans ht.lexemes
  refine ⟨t, ht, rfl, hunique, hlexemes, fun front v behind hleaves => ⟨?_, ?_⟩⟩
  · -- with the names that it has, the tree stays the one that it is
    obtain ⟨u, hallowed, hsame, hu, hdoc⟩ := t.exists_renamed ht.allowed hpreferred (alikeAll_refl _)
    have hderives : u.Derives d (lexemesOf ts) :=
      ⟨hallowed, by rw [← u.map_lexeme_leaves, hu, hlexemes]⟩
    rw [← hsame, hunique u hderives, hleaves] at hdoc
    simpa using hdoc
  · intro tok n hwell hn
    obtain ⟨hword, hspelled⟩ := hwell.eq_ofWord hn
    have halike : AlikeAll t.leaves (front ++ .name ⟨n, hspelled⟩ :: behind) := by
      rw [hleaves]
      exact List.rel_append (alikeAll_refl front) (.cons (.name v _) (alikeAll_refl behind))
    obtain ⟨u, hallowed, hsame, hu, hdoc⟩ := t.exists_renamed ht.allowed hpreferred halike
    have hset : u.lexemes = lexemesOf (ts.set front.length tok) := by
      rw [← u.map_lexeme_leaves, hu, lexemesOf, List.map_set, ← lexemesOf, ← hlexemes, hleaves,
        hword]
      simp
      rfl
    have hnew : ∀ t ∈ ts.set front.length tok, t.lexeme.WellFormed := by
      intro t ht
      rcases List.mem_or_eq_of_mem_set ht with ht | rfl
      · exact hts t ht
      · exact hwell
    refine (ofTokens_ok_iff_derives hnew).mpr ⟨u, ⟨hallowed, hset⟩, hsame, ?_⟩
    rw [← hdoc]
    simp

/-- The tokens of `message T { a.b c = 2 ; }`, all at one place. -/
def fieldTokens : List Token :=
  [.keyword .kwMessage, .identifier "T", .punct .lbrace, .identifier "a", .punct .dot,
    .identifier "b", .identifier "c", .punct .equals, .integer "2", .punct .semicolon,
    .punct .rbrace].map (⟨·, .start⟩)

/-- The document of these tokens, with a type and a name for the field. -/
def fieldDocument (type name : String) : Document :=
  ⟨[.message ⟨"T", [.field ⟨none, .named type, name, 2, []⟩]⟩]⟩

/-- The tree of these tokens. -/
def fieldTree : DocumentTree :=
  ⟨[.message ⟨"T", by decide⟩ [.field {
    modifier := none
    type := .named ⟨⟨"a", by decide⟩, [⟨"b", by decide⟩]⟩ (by decide)
    name := ⟨"c", by decide⟩
    tag := ⟨"2", by decide, List.all_eq_true.mp (by decide), by decide⟩
    options := []
    free := fun _ l hl => by
      obtain rfl : Lexeme.identifier "a" = l := Option.some.inj hl
      rfl }]]⟩

/-- The field may be called `option`, and the last word of its type may be `map`. -/
theorem ofTokens_fieldTokens :
    Document.ofTokens Dialect.strict.rules (.ofTokens fieldTokens .start) =
        .ok (fieldDocument "a.b" "c") ∧
      Document.ofTokens Dialect.strict.rules
          (.ofTokens (fieldTokens.set 6 ⟨.keyword .kwOption, .start⟩) .start) =
        .ok (fieldDocument "a.b" "option") ∧
      Document.ofTokens Dialect.strict.rules
          (.ofTokens (fieldTokens.set 5 ⟨.keyword .kwMap, .start⟩) .start) =
        .ok (fieldDocument "a.map" "c") := by
  have hts : ∀ t ∈ fieldTokens, t.lexeme.WellFormed := by decide
  have hread : Document.ofTokens Dialect.strict.rules (.ofTokens fieldTokens .start) =
      .ok (fieldDocument "a.b" "c") := by decide
  obtain ⟨t, -, -, hunique, -, hnames⟩ := ofTokens_withNames .strict fieldTokens .start _ hts hread
  have htree : fieldTree.Derives .strict (lexemesOf fieldTokens) := {
    allowed := {
      lines := List.forall_mem_singleton.mpr ⟨fun _ => rfl, trivial⟩
      nonempty := fun _ => List.cons_ne_nil _ _ }
    lexemes := rfl }
  obtain rfl : fieldTree = t := hunique _ htree
  have hname := (hnames (fieldTree.leaves.take 6) ⟨"c", by decide⟩ (fieldTree.leaves.drop 7) rfl).2
  have htype := (hnames (fieldTree.leaves.take 5) ⟨"b", by decide⟩ (fieldTree.leaves.drop 6) rfl).2
  exact ⟨hread, hname ⟨.keyword .kwOption, .start⟩ "option" trivial rfl,
    htype ⟨.keyword .kwMap, .start⟩ "map" trivial rfl⟩

end SchemaLang
