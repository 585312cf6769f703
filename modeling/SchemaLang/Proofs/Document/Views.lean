/-
# Views share a body out

A body lists unlike items, and each view picks the items of one sort.  Nothing is lost by looking
at the views only: every item is in the one view of its sort as often as it is in the body, no view
changes the order, and the views can be woven together again along the sorts of the items
(`SharedOut`).

A view is a `filterMap` that is undone by a constructor, so it is the body filtered by a sort
(`map_filterMap_eq_filter`).  Lists filtered by every sort share a list out (`sharedOut_filter`),
which is the only induction.
-/
import Mathlib.Data.List.Basic
import Mathlib.Logic.Function.Basic
import SchemaLang.Document.Views

namespace SchemaLang

/-! ## 1. Lists that are shared out -/

section Sharing

variable {α β κ : Type} [DecidableEq κ]

/-- Takes the next item of the view that comes up each time. -/
def weave : List κ → (κ → List α) → List α
  | [], _ => []
  | k :: ks, view =>
    match view k with
    | [] => weave ks view
    | x :: rest => x :: weave ks (Function.update view k rest)

/-- The views share the items out, each item going to the view of its sort.  An item is in that
view as often as it is among the items and in no other view; the views keep the order of the items;
and the items are the views woven together along the sorts. -/
structure SharedOut [DecidableEq α] (items : List α) (sort : α → κ) (view : κ → List α) :
    Prop where
  count : ∀ k x, (view k).count x = if sort x = k then items.count x else 0
  order : ∀ k, (view k).Sublist items
  woven : weave (items.map sort) view = items

/-- What was taken out of its view leaves the other views as they are. -/
theorem update_filter_cons (sort : α → κ) (x : α) (xs : List α) :
    Function.update (fun k => (x :: xs).filter (sort · = k)) (sort x)
      (xs.filter (sort · = sort x)) = fun k => xs.filter (sort · = k) := by
  funext k
  by_cases h : k = sort x
  · subst h
    simp
  · simp [Function.update_of_ne h, Ne.symm h]

theorem weave_filter (sort : α → κ) (items : List α) :
    weave (items.map sort) (fun k => items.filter (sort · = k)) = items := by
  induction items with
  | nil => rfl
  | cons x xs ih =>
    have hview : (x :: xs).filter (sort · = sort x) = x :: xs.filter (sort · = sort x) :=
      List.filter_cons_of_pos (by simp)
    rw [List.map_cons, weave, hview]
    dsimp only
    rw [update_filter_cons, ih]

/-- Lists filtered by every sort share a list out. -/
theorem sharedOut_filter [DecidableEq α] {items : List α} {sort : α → κ} {view : κ → List α}
    (h : ∀ k, view k = items.filter (sort · = k)) : SharedOut items sort view where
  count := by
    intro k x
    rw [h]
    by_cases hx : sort x = k
    · rw [if_pos hx, List.count_filter (by simpa using hx)]
    · rw [if_neg hx, List.count_eq_zero]
      exact fun hmem => hx (by simpa using (List.mem_filter.mp hmem).2)
  order := by
    intro k
    rw [h]
    exact List.filter_sublist
  woven := by
    rw [show view = _ from funext h]
    exact weave_filter sort items

omit [DecidableEq κ] in
/-- To pick items and to put them back is to keep the items that can be picked. -/
theorem map_filterMap_eq_filter {f : α → Option β} {g : β → α} {keep : α → Bool}
    (h : ∀ a, (f a).map g = if keep a then some a else none) (items : List α) :
    (items.filterMap f).map g = items.filter keep := by
  rw [List.map_filterMap, ← List.filterMap_eq_filter]
  refine List.filterMap_congr fun a _ => ?_
  rw [h, Option.guard]

omit [DecidableEq κ] in
/-- The last item that can be picked is in front of items that cannot. -/
theorem getLast?_filterMap_eq_some_iff {f : α → Option β} {b : β} {items : List α} :
    (items.filterMap f).getLast? = some b ↔
      ∃ before a behind, items = before ++ a :: behind ∧ f a = some b ∧
        ∀ x ∈ behind, f x = none := by
  rw [List.getLast?_eq_some_iff]
  constructor
  · rintro ⟨bs, h⟩
    obtain ⟨before, rest, rfl, -, hrest⟩ := List.filterMap_eq_append_iff.mp h
    obtain ⟨between, a, behind, rfl, -, ha, hbehind⟩ := List.filterMap_eq_cons_iff.mp hrest
    exact ⟨before ++ between, a, behind, by simp, ha, List.filterMap_eq_nil_iff.mp hbehind⟩
  · rintro ⟨before, a, behind, rfl, ha, hbehind⟩
    refine ⟨before.filterMap f, ?_⟩
    rw [List.filterMap_append, List.filterMap_cons_some ha, List.filterMap_eq_nil_iff.mpr hbehind]

end Sharing

/-! ## 2. Views and sorts -/

/-- The views among which containers share out what they hold. -/
inductive View
  | options | fields | messages | enumerations | entries | imports | definitions
  | syntaxDecls | packageDecls
  deriving DecidableEq, Repr

/-- The view of an enumeration that an item is in. -/
def EnumItem.sort : EnumItem → View
  | setting _ => .options
  | entry _ => .entries

/-- The view of a message that an item is in. -/
def MessageItem.sort : MessageItem → View
  | setting _ => .options
  | message _ _ => .messages
  | enumeration _ => .enumerations
  | field _ => .fields

/-- Messages and enumerations are told apart among the definitions. -/
def Definition.sort : Definition → View
  | message _ => .messages
  | enumeration _ => .enumerations

/-- The item of a message that a definition is. -/
def Definition.item : Definition → MessageItem
  | message m => .ofMessage m
  | enumeration e => .enumeration e

/-- The statement that a definition is. -/
def Definition.statement : Definition → Statement
  | message m => .message m
  | enumeration e => .enumeration e

/-- The view of a document that a statement is in. -/
def Statement.sort : Statement → View
  | syntaxDecl _ => .syntaxDecls
  | packageDecl _ => .packageDecls
  | importDecl _ => .imports
  | setting _ => .options
  | message _ => .definitions
  | enumeration _ => .definitions

/-- What the views of an enumeration list, as items of its body. -/
def Enumeration.view (e : Enumeration) : View → List EnumItem
  | .options => e.options.map .setting
  | .entries => e.entries.map .entry
  | _ => []

/-- What the views of a message list, as items of its body. -/
def Message.view (m : Message) : View → List MessageItem
  | .options => m.options.map .setting
  | .fields => m.fields.map .field
  | .messages => m.messages.map .ofMessage
  | .enumerations => m.enumerations.map .enumeration
  | _ => []

/-- The messages and the enumerations in a message, as definitions. -/
def Message.definitionView (m : Message) : View → List Definition
  | .messages => m.messages.map .message
  | .enumerations => m.enumerations.map .enumeration
  | _ => []

/-- What the views of a document list, as statements.  A syntax or package statement is in the list
whose last one counts. -/
def Document.view (d : Document) : View → List Statement
  | .imports => d.imports.map .importDecl
  | .options => d.options.map .setting
  | .definitions => d.definitions.map Definition.statement
  | .syntaxDecls => (d.statements.filterMap Statement.syntaxValue?).map .syntaxDecl
  | .packageDecls => (d.statements.filterMap Statement.packageName?).map .packageDecl
  | _ => []

/-! ## 3. Every view is the body filtered by a sort -/

/-- Where no item is of a sort, filtering by it leaves nothing. -/
theorem nil_eq_filter_sort {α : Type} {items : List α} {sort : α → View} {k : View}
    (h : ∀ x, sort x ≠ k) : [] = items.filter (sort · = k) := by
  refine (List.filter_eq_nil_iff.mpr fun x _ => ?_).symm
  simpa using h x

theorem Enumeration.view_eq_filter (e : Enumeration) (k : View) :
    e.view k = e.body.filter (EnumItem.sort · = k) := by
  cases k with
  | options => exact map_filterMap_eq_filter (by rintro (_ | _) <;> rfl) _
  | entries => exact map_filterMap_eq_filter (by rintro (_ | _) <;> rfl) _
  | _ => exact nil_eq_filter_sort (by rintro (_ | _) <;> simp [EnumItem.sort])

theorem Message.view_eq_filter (m : Message) (k : View) :
    m.view k = m.body.filter (MessageItem.sort · = k) := by
  cases k with
  | options => exact map_filterMap_eq_filter (by rintro (_ | _ | _ | _) <;> rfl) _
  | fields => exact map_filterMap_eq_filter (by rintro (_ | _ | _ | _) <;> rfl) _
  | messages => exact map_filterMap_eq_filter (by rintro (_ | _ | _ | _) <;> rfl) _
  | enumerations => exact map_filterMap_eq_filter (by rintro (_ | _ | _ | _) <;> rfl) _
  | _ => exact nil_eq_filter_sort (by rintro (_ | _ | _ | _) <;> simp [MessageItem.sort])

theorem Document.view_eq_filter (d : Document) (k : View) :
    d.view k = d.statements.filter (Statement.sort · = k) := by
  cases k with
  | imports => exact map_filterMap_eq_filter (by rintro (_ | _ | _ | _ | _ | _) <;> rfl) _
  | options => exact map_filterMap_eq_filter (by rintro (_ | _ | _ | _ | _ | _) <;> rfl) _
  | definitions => exact map_filterMap_eq_filter (by rintro (_ | _ | _ | _ | _ | _) <;> rfl) _
  | syntaxDecls => exact map_filterMap_eq_filter (by rintro (_ | _ | _ | _ | _ | _) <;> rfl) _
  | packageDecls => exact map_filterMap_eq_filter (by rintro (_ | _ | _ | _ | _ | _) <;> rfl) _
  | _ => exact nil_eq_filter_sort (by rintro (_ | _ | _ | _ | _ | _) <;> simp [Statement.sort])

/-! ## 4. Definitions -/

/-- The definitions of a message are its messages and enumerations, where they stand. -/
theorem Message.map_item_definitions (m : Message) :
    m.definitions.map Definition.item =
      m.body.filter (MessageItem.sort · ∈ [View.messages, .enumerations]) :=
  map_filterMap_eq_filter (by rintro (_ | _ | _ | _) <;> rfl) _

/-- Among the definitions the messages are those of the message. -/
theorem Message.definitionView_eq_filter (m : Message) (k : View) :
    m.definitionView k = m.definitions.filter (Definition.sort · = k) := by
  have hpick : ∀ pick : MessageItem → Option Definition,
      (∀ i, (MessageItem.definition? i).filter (Definition.sort · = k) = pick i) →
      m.body.filterMap pick = m.definitions.filter (Definition.sort · = k) := by
    intro pick h
    rw [definitions, List.filter_filterMap]
    exact List.filterMap_congr fun i _ => (h i).symm
  cases k with
  | messages =>
    rw [definitionView, messages, List.map_filterMap]
    exact hpick _ (by rintro (_ | _ | _ | _) <;> rfl)
  | enumerations =>
    rw [definitionView, enumerations, List.map_filterMap]
    exact hpick _ (by rintro (_ | _ | _ | _) <;> rfl)
  | _ => exact nil_eq_filter_sort (by rintro (_ | _) <;> simp [Definition.sort])

/-! ## 5. The last statement counts -/

theorem Statement.syntaxValue?_eq_some_iff {s : Statement} {v : String} :
    s.syntaxValue? = some v ↔ s = .syntaxDecl v := by
  cases s <;> simp [syntaxValue?]

theorem Statement.packageName?_eq_some_iff {s : Statement} {n : String} :
    s.packageName? = some n ↔ s = .packageDecl n := by
  cases s <;> simp [packageName?]

/-- A reader of statements that takes what one sort of them says finds nothing where none is of
that sort. -/
theorem forall_eq_none_iff {α β : Type} {f : α → Option β} {g : β → α}
    (h : ∀ {a b}, f a = some b ↔ a = g b) {items : List α} :
    (∀ a ∈ items, f a = none) ↔ ∀ b, g b ∉ items := by
  constructor
  · intro hnone b hb
    have := hnone _ hb
    rw [h.mpr rfl] at this
    exact absurd this (by simp)
  · intro hnone a ha
    refine Option.eq_none_iff_forall_ne_some.mpr fun b hb => ?_
    exact hnone b (h.mp hb ▸ ha)

/-- The last statement of a sort is what the statements say, and they say nothing where there is
none. -/
theorem getLast?_filterMap_spec {α β : Type} {f : α → Option β} {g : β → α}
    (h : ∀ {a b}, f a = some b ↔ a = g b) (items : List α) :
    (∀ b, (items.filterMap f).getLast? = some b ↔
        ∃ before behind, items = before ++ g b :: behind ∧ ∀ b', g b' ∉ behind) ∧
      ((items.filterMap f).getLast? = none ↔ ∀ b, g b ∉ items) := by
  constructor
  · intro b
    rw [getLast?_filterMap_eq_some_iff]
    constructor
    · rintro ⟨before, a, behind, hitems, ha, hbehind⟩
      obtain rfl := h.mp ha
      exact ⟨before, behind, hitems, (forall_eq_none_iff h).mp hbehind⟩
    · rintro ⟨before, behind, hitems, hbehind⟩
      exact ⟨before, g b, behind, hitems, h.mpr rfl, (forall_eq_none_iff h).mpr hbehind⟩
  · rw [List.getLast?_eq_none_iff, List.filterMap_eq_nil_iff, forall_eq_none_iff h]

/-! ## 6. All views -/

/-- **Views lose nothing and double nothing**, in any document, message and enumeration, whatever
stands around it.  The options, fields, messages and enumerations of a message share its body out.
So do the options and entries of an enumeration, and the imports, options, definitions and the
syntax and package statements of a document share its statements out.  The definitions in a message
are its messages and enumerations, shared out among these in turn, and stand in the order of the
body.  The syntax and the package of a document are what the last such statement says, and
there is none exactly where there is no such statement. -/
theorem views_shareOut (d : Document) (m : Message) (e : Enumeration) :
    (SharedOut m.body MessageItem.sort m.view ∧
      SharedOut m.definitions Definition.sort m.definitionView ∧
      m.definitions.map Definition.item =
        m.body.filter (MessageItem.sort · ∈ [View.messages, .enumerations])) ∧
    SharedOut e.body EnumItem.sort e.view ∧
    SharedOut d.statements Statement.sort d.view ∧
    ((∀ v, d.syntaxValue? = some v ↔ ∃ before behind,
        d.statements = before ++ .syntaxDecl v :: behind ∧ ∀ w, .syntaxDecl w ∉ behind) ∧
      (d.syntaxValue? = none ↔ ∀ w, .syntaxDecl w ∉ d.statements)) ∧
    (∀ n, d.packageName? = some n ↔ ∃ before behind,
        d.statements = before ++ .packageDecl n :: behind ∧ ∀ p, .packageDecl p ∉ behind) ∧
    (d.packageName? = none ↔ ∀ p, .packageDecl p ∉ d.statements) := by
  refine ⟨⟨?_, ?_, m.map_item_definitions⟩, ?_, ?_, ?_, ?_⟩
  · exact sharedOut_filter m.view_eq_filter
  · exact sharedOut_filter m.definitionView_eq_filter
  · exact sharedOut_filter e.view_eq_filter
  · exact sharedOut_filter d.view_eq_filter
  · exact getLast?_filterMap_spec Statement.syntaxValue?_eq_some_iff _
  · exact getLast?_filterMap_spec Statement.packageName?_eq_some_iff _

end SchemaLang
