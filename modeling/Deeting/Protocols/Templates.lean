import Deeting.Protocols.Spelling

/-! `RuntimeRequestRenderer` with the engine `jinja2`, over templates whose leaves are constants and
single expressions: an expression is rendered to a text, and a value is read from that text. -/
namespace Deeting.Protocols

section Jinja

/-- What an expression is evaluated to: a value of the context, or another object of Python's. -/
inductive Found where
  | data (value : Json)
  | object

abbrev Context := List (String × Json)

/-- The expressions `{{ x }}` and `{{ request.x }}`. -/
inductive Expression (isName : String → Bool) where
  | name (x : String) (named : isName x = true)
  | request (x : String) (named : isName x = true)

def Expression.text {isName : String → Bool} : Expression isName → String
  | .name x _ => "\x7b\x7b " ++ x ++ " \x7d\x7d"
  | .request x _ => "\x7b\x7b request." ++ x ++ " \x7d\x7d"

/-- What an expression is evaluated to: a name is looked up in the context and then among the
globals, and the attributes of an object, which what is undefined has too, come before its items. -/
def Expression.find {isName : String → Bool} (globals : String → Bool)
    (attr : Option Json → String → Bool) (context : Context) :
    Expression isName → Option Found
  | .name x _ =>
      match context.lookup x with
      | some value => some (.data value)
      | none => if globals x then some .object else none
  | .request x _ =>
      let request := context.lookup "request"
      if attr request x then some .object else (request.bind (Json.get? x)).map .data

/-- The environment of jinja2 with `SilentUndefined`: `from_string(text).render(**context)`,
`none` where it raises, the names that are variables, the globals and the attributes. -/
structure Jinja where
  render : String → Context → Option String
  isName : String → Bool
  globals : String → Bool
  attr : Option Json → String → Bool
  repr : Json → Option String
  /-- A context cannot have the name of the first parameter of `render`. -/
  render_self : ∀ text (context : Context), context.lookup "self" ≠ none →
    render text context = none
  /-- What an expression is evaluated to is rendered as its `str`. -/
  render_data : ∀ (e : Expression isName) (context : Context) value,
    context.lookup "self" = none → e.find globals attr context = some (.data value) →
      render e.text context = strOf repr value
  /-- What is undefined is rendered as nothing. -/
  render_undefined : ∀ (e : Expression isName) (context : Context),
    context.lookup "self" = none → e.find globals attr context = none →
      render e.text context = some ""

end Jinja

section Render
variable (D : Digits) (j : Jinja) (context : Context)

def marked (text : String) : Prop :=
  "\x7b\x7b".toList <:+: text.toList ∨ "\x7b%".toList <:+: text.toList

instance (text : String) : Decidable (marked text) := inferInstanceAs (Decidable (_ ∨ _))

mutual

/-- `_render_jinja`, `none` where it raises. -/
def renderJinja : Json → Option Json
  | .str text => if marked text then (j.render text context).bind D.decode else some (.str text)
  | .obj entries => (renderEntries entries).map .obj
  | .arr items => (renderItems items).map .arr
  | template => some template

def renderEntries : List (String × Json) → Option (List (String × Json))
  | [] => some []
  | (key, value) :: rest =>
      (renderJinja value).bind fun value =>
        (renderEntries rest).map fun rest => if value.isNull then rest else (key, value) :: rest

def renderItems : List Json → Option (List Json)
  | [] => some []
  | value :: rest =>
      (renderJinja value).bind fun value =>
        (renderItems rest).map fun rest => if value.isNull then rest else value :: rest

end

end Render

def IsConstant : Json → Prop
  | .arr _ | .obj _ => False
  | .str text => ¬ marked text
  | _ => True

/-- Templates whose leaves are constants and single expressions. -/
inductive Template (isName : String → Bool) where
  | constant (value : Json) (plain : IsConstant value)
  | expression (e : Expression isName)
  | list (items : List (Template isName))
  | dict (entries : List (String × Template isName))

namespace Template

section Trees
variable {isName : String → Bool}

mutual

def json : Template isName → Json
  | .constant value _ => value
  | .expression e => .str e.text
  | .list items => .arr (jsonItems items)
  | .dict entries => .obj (jsonEntries entries)

def jsonItems : List (Template isName) → List Json
  | [] => []
  | t :: rest => t.json :: jsonItems rest

def jsonEntries : List (String × Template isName) → List (String × Json)
  | [] => []
  | (key, t) :: rest => (key, t.json) :: jsonEntries rest

end

/-- What holds of the leaves, and of a tree when it holds of its parts, holds of every template. -/
theorem treeInduction {P : Template isName → Prop}
    (constant : ∀ value plain, P (.constant value plain)) (expression : ∀ e, P (.expression e))
    (list : ∀ items, (∀ t ∈ items, P t) → P (.list items))
    (dict : ∀ entries, (∀ entry ∈ entries, P entry.2) → P (.dict entries))
    (t : Template isName) : P t := by
  match t with
  | .constant value plain => exact constant value plain
  | .expression e => exact expression e
  | .list items =>
    apply list
    intro t mem
    exact treeInduction constant expression list dict t
  | .dict entries =>
    apply dict
    rintro ⟨key, t⟩ mem
    exact treeInduction constant expression list dict t
termination_by sizeOf t
decreasing_by
  · have smaller := List.sizeOf_lt_of_mem mem
    simp only [Template.list.sizeOf_spec]
    omega
  · have smaller := List.sizeOf_lt_of_mem mem
    simp only [Prod.mk.sizeOf_spec] at smaller
    simp only [Template.dict.sizeOf_spec]
    omega

end Trees

variable (j : Jinja) (context : Context)

def found (e : Expression j.isName) : Option Found := e.find j.globals j.attr context

def MayLack : Template j.isName → Prop
  | .expression e => found j context e = none ∨ found j context e = some (.data .null)
  | _ => False

/-- An expression leaf has the value of the expression in the context with its type. Where the
variable is missing there is none, unless `blank` counts the empty text as one. -/
def Kept (blank : Prop) (e : Expression j.isName) (result : Json) : Prop :=
  match found j context e with
  | none => blank ∧ result = .str ""
  | some (.data value) => result = value
  | some .object => False

mutual

/-- The result has the keys and lengths of the template, and the values of its leaves. -/
def Keeps (blank : Prop) : Template j.isName → Json → Prop
  | .constant value _, result => result = value
  | .expression e, result => Kept j context blank e result
  | .list items, result => ∃ results, result = .arr results ∧ KeepsItems blank items results
  | .dict entries, result => ∃ results, result = .obj results ∧ KeepsEntries blank entries results

def KeepsItems (blank : Prop) : List (Template j.isName) → List Json → Prop
  | [], results => results = []
  | t :: rest, results =>
      (∃ first others, results = first :: others ∧ Keeps blank t first ∧
        KeepsItems blank rest others) ∨ MayLack j context t ∧ KeepsItems blank rest results

def KeepsEntries (blank : Prop) : List (String × Template j.isName) → List (String × Json) → Prop
  | [], results => results = []
  | (key, t) :: rest, results =>
      (∃ first others, results = (key, first) :: others ∧ Keeps blank t first ∧
        KeepsEntries blank rest others) ∨ MayLack j context t ∧ KeepsEntries blank rest results

end

mutual

/-- Every expression has a value that is read back or, if `blank`, is undefined, and no null
stands in a list or an object. -/
def Fits (D : Digits) (blank : Prop) : Template j.isName → Prop
  | .constant _ _ => True
  | .expression e =>
      context.lookup "self" = none ∧
        match found j context e with
        | none => blank
        | some (.data value) => ReadsBack D value
        | some .object => False
  | .list items => FitsItems D blank items
  | .dict entries => FitsEntries D blank entries

def FitsItems (D : Digits) (blank : Prop) : List (Template j.isName) → Prop
  | [] => True
  | t :: rest => t.json ≠ .null ∧ Fits D blank t ∧ FitsItems D blank rest

def FitsEntries (D : Digits) (blank : Prop) : List (String × Template j.isName) → Prop
  | [] => True
  | (_, t) :: rest => t.json ≠ .null ∧ Fits D blank t ∧ FitsEntries D blank rest

end

end Template

namespace Template
variable {D : Digits} {j : Jinja} {context : Context} {blank : Prop}

section Leaves
variable {e : Expression j.isName} {t : Template j.isName} {value result : Json}

theorem marked_text (e : Expression j.isName) : marked e.text := by
  apply Or.inl
  cases e with
  | name x named =>
    refine ⟨[], " ".toList ++ x.toList ++ " \x7d\x7d".toList, ?_⟩
    simp [Expression.text]
  | request x named =>
    refine ⟨[], " request.".toList ++ x.toList ++ " \x7d\x7d".toList, ?_⟩
    simp [Expression.text]

theorem renderJinja_expression : renderJinja D j context (expression e).json =
    (j.render e.text context).bind D.decode := by
  rw [json, renderJinja, if_pos (marked_text e)]

theorem renderJinja_constant (plain : IsConstant value) :
    renderJinja D j context value = some value := by
  cases value with
  | str text => rw [renderJinja, if_neg plain]
  | arr _ | obj _ => exact plain.elim
  | null | bool _ | int _ | float _ => simp [renderJinja]

theorem rendersKept_expression :
    (∃ result, renderJinja D j context (expression e).json = some result ∧
      Kept j context blank e result) ↔ Fits j context D blank (.expression e) := by
  rw [renderJinja_expression, Fits]
  by_cases self : context.lookup "self" = none
  · rw [and_iff_right self]
    cases eq : found j context e with
    | none => simp [Kept, eq, j.render_undefined e context self eq, decode_empty]
    | some what =>
      cases what with
      | data value => simp [Kept, eq, j.render_data e context value self eq, read_str_iff]
      | object => simp [Kept, eq]
  · simp [j.render_self e.text context self, self]

def unreadable (j : Jinja) (context : Context) : Template j.isName → Bool
  | .constant value _ => unread value
  | .expression e =>
      match found j context e with
      | none => false
      | some (.data value) => unread value && !value.isNull
      | some .object => true
  | .list _ | .dict _ => true

theorem unreadable_of_mayLack (absent : MayLack j context t) : unreadable j context t = false := by
  cases t with
  | expression e =>
    obtain missing | null := absent
    · simp [unreadable, missing]
    · simp [unreadable, null, Json.isNull]
  | constant _ _ | list _ | dict _ => exact absent.elim

theorem unread_of_keeps (keeps : Keeps j context blank t result)
    (hard : unreadable j context t = true) : unread result = true := by
  cases t with
  | constant value plain =>
    obtain rfl : result = value := keeps
    exact hard
  | expression e =>
    simp only [Keeps, Kept] at keeps
    simp only [unreadable] at hard
    split at hard
    · contradiction
    · rename_i value eq
      simp only [eq] at keeps
      rw [keeps, (Bool.and_eq_true_iff.mp hard).1]
    · rename_i eq
      simp only [eq] at keeps
  | list items =>
    obtain ⟨results, rfl, _⟩ := keeps
    rfl
  | dict entries =>
    obtain ⟨results, rfl, _⟩ := keeps
    rfl

theorem unreadable_of_render (render : renderJinja D j context t.json = some result)
    (lost : unread result = true) : unreadable j context t = true := by
  cases t with
  | constant value plain =>
    rw [json, renderJinja_constant plain] at render
    rw [unreadable, Option.some.inj render, lost]
  | expression e =>
    rw [renderJinja_expression] at render
    have self : context.lookup "self" = none := by
      by_contra self
      simp [j.render_self e.text context self] at render
    have null : result = .null := by
      obtain ⟨text, _, read⟩ := Option.bind_eq_some_iff.mp render
      exact unread_of_decode read lost
    cases eq : found j context e with
    | none =>
      rw [j.render_undefined e context self eq, null] at render
      simp [decode_empty] at render
    | some what =>
      cases what with
      | data value =>
        rw [j.render_data e context value self eq, null] at render
        obtain ⟨hard, nonnull⟩ := unread_of_read_null render
        simp [unreadable, eq, hard, nonnull]
      | object => simp [unreadable, eq]
  | list _ | dict _ => rfl

end Leaves

section Lists
variable {items : List (Template j.isName)} {entries : List (String × Template j.isName)}
  {outs results : List Json} {members : List (String × Json)}

theorem renderItems_iff : renderItems D j context (jsonItems items) = some results ↔
    ∃ outs, List.Forall₂ (fun t out => renderJinja D j context t.json = some out) items outs ∧
      results = outs.filter fun out => !out.isNull := by
  induction items generalizing results with
  | nil => simp [jsonItems, renderItems, eq_comm]
  | cons t rest ih =>
    rw [jsonItems, renderItems, Option.bind_eq_some_iff]
    constructor
    · rintro ⟨out, render, rendered⟩
      obtain ⟨others, renders, rfl⟩ := Option.map_eq_some_iff.mp rendered
      obtain ⟨outs, each, rfl⟩ := ih.mp renders
      refine ⟨out :: outs, .cons render each, ?_⟩
      cases null : out.isNull <;> simp [null]
    · rintro ⟨_, each, rfl⟩
      cases each with
      | @cons _ out _ outs render each =>
        refine ⟨out, render, ?_⟩
        rw [ih.mpr ⟨outs, each, rfl⟩]
        cases null : out.isNull <;> simp [null]

theorem countP_keepsItems (keeps : KeepsItems j context blank items results) :
    items.countP (unreadable j context) ≤ results.countP unread := by
  induction items generalizing results with
  | nil => simp
  | cons t rest ih =>
    obtain ⟨first, others, rfl, keep, keeps⟩ | ⟨absent, keeps⟩ := keeps
    · have counted := ih keeps
      rw [List.countP_cons, List.countP_cons]
      split
      · rename_i hard
        rw [if_pos (unread_of_keeps keep hard)]
        omega
      · omega
    · rw [List.countP_cons_of_neg (by simp [unreadable_of_mayLack absent])]
      exact ih keeps

theorem countP_rendered
    (rendered : List.Forall₂ (fun t out => renderJinja D j context t.json = some out) items outs) :
    outs.countP unread ≤ items.countP (unreadable j context) := by
  induction rendered with
  | nil => simp
  | @cons t out items outs render _ ih =>
    rw [List.countP_cons, List.countP_cons]
    split
    · rename_i lost
      rw [if_pos (unreadable_of_render render lost)]
      omega
    · omega

/-- What keeps all values has lost no item of a list: the values that no text is read as are as
many as the items that need one. -/
theorem isNull_of_rendered
    (rendered : List.Forall₂ (fun t out => renderJinja D j context t.json = some out) items outs)
    (keeps : KeepsItems j context blank items (outs.filter fun out => !out.isNull)) :
    ∀ out ∈ outs, out.isNull = false := by
  have needed := countP_keepsItems keeps
  have given := countP_rendered rendered
  have parts := List.countP_eq_countP_filter_add outs unread fun out => !out.isNull
  have none : (outs.filter fun out => !!out.isNull).countP unread = 0 := by omega
  rw [List.countP_eq_zero] at none
  intro out mem
  rw [← Bool.not_eq_true]
  intro null
  apply none out (List.mem_filter.mpr ⟨mem, by simp [null]⟩)
  obtain rfl : out = .null := by
    cases out <;> simp [Json.isNull] at null ⊢
  rfl

theorem length_keepsItems (keeps : KeepsItems j context blank items results) :
    results.length ≤ items.length := by
  induction items generalizing results with
  | nil =>
    obtain rfl : results = [] := keeps
    exact le_rfl
  | cons t rest ih =>
    obtain ⟨first, others, rfl, _, keeps⟩ | ⟨_, keeps⟩ := keeps
    · exact Nat.succ_le_succ (ih keeps)
    · exact (ih keeps).trans (Nat.le_succ _)

theorem forall₂_of_keepsItems (keeps : KeepsItems j context blank items results)
    (length : items.length = results.length) :
    List.Forall₂ (Keeps j context blank) items results := by
  induction items generalizing results with
  | nil =>
    obtain rfl : results = [] := keeps
    exact .nil
  | cons t rest ih =>
    obtain ⟨first, others, rfl, keep, keeps⟩ | ⟨_, keeps⟩ := keeps
    · exact .cons keep (ih keeps (Nat.succ.inj length))
    · have short := length_keepsItems keeps
      rw [List.length_cons] at length
      omega

theorem isNull_of_keeps (nonnull : t.json ≠ .null) (fits : Fits j context D blank t)
    (keeps : Keeps j context blank t result) : result.isNull = false := by
  cases t with
  | constant value plain =>
    obtain rfl : result = value := keeps
    cases result with
    | null => exact absurd rfl nonnull
    | bool _ | int _ | float _ | str _ | arr _ | obj _ => rfl
  | expression e =>
    have fit := fits.2
    simp only [Keeps, Kept] at keeps
    split at fit
    · rename_i eq
      simp only [eq] at keeps
      rw [keeps.2]
      rfl
    · rename_i value eq
      simp only [eq] at keeps
      rw [keeps]
      cases value with
      | str _ | int _ => rfl
      | null | bool _ | float _ | arr _ | obj _ => exact fit.elim
    · exact fit.elim
  | list items =>
    obtain ⟨results, rfl, _⟩ := keeps
    rfl
  | dict entries =>
    obtain ⟨results, rfl, _⟩ := keeps
    rfl

theorem renderItems_of_fits
    (each : ∀ t ∈ items, Fits j context D blank t →
      ∃ result, renderJinja D j context t.json = some result ∧ Keeps j context blank t result)
    (fits : FitsItems j context D blank items) :
    ∃ results, renderItems D j context (jsonItems items) = some results ∧
      KeepsItems j context blank items results := by
  induction items with
  | nil => exact ⟨[], rfl, rfl⟩
  | cons t rest ih =>
    obtain ⟨nonnull, fit, fits⟩ := fits
    rw [List.forall_mem_cons] at each
    obtain ⟨result, render, keeps⟩ := each.1 fit
    obtain ⟨results, renders, keepsRest⟩ := ih each.2 fits
    refine ⟨result :: results, ?_, .inl ⟨result, results, rfl, keeps, keepsRest⟩⟩
    simp [jsonItems, renderItems, render, renders, isNull_of_keeps nonnull fit keeps]

theorem fitsItems_of_paired
    (each : ∀ t ∈ items, ∀ result, renderJinja D j context t.json = some result →
      Keeps j context blank t result → Fits j context D blank t)
    (rendered : List.Forall₂ (fun t out => renderJinja D j context t.json = some out) items outs)
    (paired : List.Forall₂ (Keeps j context blank) items outs)
    (nonnull : ∀ out ∈ outs, out.isNull = false) : FitsItems j context D blank items := by
  induction rendered with
  | nil => trivial
  | @cons t out items outs render rendered ih =>
    rw [List.forall_mem_cons] at each nonnull
    obtain ⟨keep, paired⟩ := List.forall₂_cons.mp paired
    refine ⟨?_, each.1 out render keep, ih each.2 paired nonnull.2⟩
    intro null
    have lost : out = .null := by simpa [null, renderJinja, eq_comm] using render
    simp [lost, Json.isNull] at nonnull

theorem fits_of_renderItems
    (each : ∀ t ∈ items, ∀ result, renderJinja D j context t.json = some result →
      Keeps j context blank t result → Fits j context D blank t)
    (render : renderItems D j context (jsonItems items) = some results)
    (keeps : KeepsItems j context blank items results) : FitsItems j context D blank items := by
  obtain ⟨outs, rendered, rfl⟩ := renderItems_iff.mp render
  have nonnull := isNull_of_rendered rendered keeps
  have whole : (outs.filter fun out => !out.isNull) = outs := by
    rw [List.filter_eq_self]
    exact fun out mem => by simp [nonnull out mem]
  rw [whole] at keeps
  exact fitsItems_of_paired each rendered (forall₂_of_keepsItems keeps rendered.length_eq) nonnull

theorem renderItems_of_renderEntries
    (render : renderEntries D j context (jsonEntries entries) = some members) :
    renderItems D j context (jsonItems (entries.map Prod.snd)) = some (members.map Prod.snd) := by
  induction entries generalizing members with
  | nil =>
    simp only [jsonEntries, renderEntries, Option.some.injEq] at render
    simp [← render, jsonItems, renderItems]
  | cons entry rest ih =>
    obtain ⟨key, t⟩ := entry
    rw [jsonEntries, renderEntries] at render
    obtain ⟨out, renderFirst, render⟩ := Option.bind_eq_some_iff.mp render
    obtain ⟨others, renderRest, rfl⟩ := Option.map_eq_some_iff.mp render
    simp only [List.map_cons, jsonItems, renderItems, renderFirst, ih renderRest, Option.bind_some,
      Option.map_some]
    split <;> rfl

theorem keepsItems_of_keepsEntries (keeps : KeepsEntries j context blank entries members) :
    KeepsItems j context blank (entries.map Prod.snd) (members.map Prod.snd) := by
  induction entries generalizing members with
  | nil =>
    obtain rfl : members = [] := keeps
    rfl
  | cons entry rest ih =>
    obtain ⟨key, t⟩ := entry
    obtain ⟨first, others, rfl, keep, keeps⟩ | ⟨absent, keeps⟩ := keeps
    · exact .inl ⟨first, others.map Prod.snd, rfl, keep, ih keeps⟩
    · exact .inr ⟨absent, ih keeps⟩

theorem fitsEntries_iff : FitsEntries j context D blank entries ↔
    FitsItems j context D blank (entries.map Prod.snd) := by
  induction entries with
  | nil => rfl
  | cons entry rest ih =>
    obtain ⟨key, t⟩ := entry
    rw [FitsEntries, List.map_cons, FitsItems, ih]

theorem renderEntries_of_fits
    (each : ∀ entry ∈ entries, Fits j context D blank entry.2 →
      ∃ result, renderJinja D j context entry.2.json = some result ∧
        Keeps j context blank entry.2 result)
    (fits : FitsEntries j context D blank entries) :
    ∃ members, renderEntries D j context (jsonEntries entries) = some members ∧
      KeepsEntries j context blank entries members := by
  induction entries with
  | nil => exact ⟨[], rfl, rfl⟩
  | cons entry rest ih =>
    obtain ⟨key, t⟩ := entry
    obtain ⟨nonnull, fit, fits⟩ := fits
    rw [List.forall_mem_cons] at each
    obtain ⟨result, render, keeps⟩ := each.1 fit
    obtain ⟨members, renders, keepsRest⟩ := ih each.2 fits
    refine ⟨(key, result) :: members, ?_, .inl ⟨result, members, rfl, keeps, keepsRest⟩⟩
    simp [jsonEntries, renderEntries, render, renders, isNull_of_keeps nonnull fit keeps]

end Lists

/-- What is rendered has the values of the leaves with their types exactly if each expression has
a text that is not spelled like another value, or an int from 0 on that is not too long, and no
null stands in a list or an object. -/
theorem rendersKept_iff (D : Digits) (j : Jinja) (context : Context) (blank : Prop)
    (t : Template j.isName) :
    (∃ result, renderJinja D j context t.json = some result ∧ Keeps j context blank t result) ↔
      Fits j context D blank t := by
  induction t using treeInduction with
  | constant value plain => exact iff_of_true ⟨value, renderJinja_constant plain, rfl⟩ trivial
  | expression e => exact rendersKept_expression
  | list items each =>
    rw [json, renderJinja, Fits]
    constructor
    · rintro ⟨result, render, results, rfl, keeps⟩
      obtain ⟨_, renders, eq⟩ := Option.map_eq_some_iff.mp render
      obtain rfl := Json.arr.inj eq
      refine fits_of_renderItems ?_ renders keeps
      exact fun t mem result render keep => (each t mem).mp ⟨result, render, keep⟩
    · intro fits
      obtain ⟨results, renders, keeps⟩ := renderItems_of_fits (fun t mem => (each t mem).mpr) fits
      exact ⟨.arr results, by rw [renders, Option.map_some], results, rfl, keeps⟩
  | dict entries each =>
    rw [json, renderJinja, Fits]
    constructor
    · rintro ⟨result, render, members, rfl, keeps⟩
      obtain ⟨_, renders, eq⟩ := Option.map_eq_some_iff.mp render
      obtain rfl := Json.obj.inj eq
      rw [fitsEntries_iff]
      refine fits_of_renderItems ?_ (renderItems_of_renderEntries renders)
        (keepsItems_of_keepsEntries keeps)
      rw [List.forall_mem_map]
      exact fun entry mem result render keep => (each entry mem).mp ⟨result, render, keep⟩
    · intro fits
      obtain ⟨members, renders, keeps⟩ :=
        renderEntries_of_fits (fun entry mem => (each entry mem).mpr) fits
      exact ⟨.obj members, by rw [renders, Option.map_some], members, rfl, keeps⟩

section Instructions

def asciiDigits : Digits where
  isdigit := Char.isDigit
  value c := if c.isDigit then some (c.toNat - '0'.toNat) else none
  isdigit_ascii _ _ := rfl
  value_ascii _ digit := if_pos digit

/-- The engine as far as templates have expressions of the variable `instructions` only. -/
def systemJinja : Jinja where
  render text context :=
    let shown (value : Option Json) := value.elim (some "") (strOf fun _ => none)
    if context.lookup "self" ≠ none then none
    else if text = "\x7b\x7b instructions \x7d\x7d" then shown (context.lookup "instructions")
    else if text = "\x7b\x7b request.instructions \x7d\x7d" then
      shown ((context.lookup "request").bind (Json.get? "instructions"))
    else none
  isName x := x = "instructions"
  globals _ := false
  attr _ _ := false
  repr _ := none
  render_self text context self := if_pos self
  render_data e context value self eq := by
    cases e with
    | name x named =>
      obtain rfl : x = "instructions" := by simpa using named
      have found : context.lookup "instructions" = some value := by
        cases look : context.lookup "instructions" <;> simp_all [Expression.find]
      simp [Expression.text, -List.lookup_eq_none_iff, self, found]
    | request x named =>
      obtain rfl : x = "instructions" := by simpa using named
      have found : (context.lookup "request").bind (Json.get? "instructions") = some value := by
        simpa [Expression.find, Option.bind_eq_some_iff] using eq
      simp [Expression.text, -List.lookup_eq_none_iff, self, found]
  render_undefined e context self eq := by
    cases e with
    | name x named =>
      obtain rfl : x = "instructions" := by simpa using named
      have found : context.lookup "instructions" = none := by
        cases look : context.lookup "instructions" <;> simp_all [Expression.find]
      simp [Expression.text, -List.lookup_eq_none_iff, self, found]
    | request x named =>
      obtain rfl : x = "instructions" := by simpa using named
      have found : (context.lookup "request").bind (Json.get? "instructions") = none := by
        simpa [Expression.find, Option.bind_eq_none_iff] using eq
      simp [Expression.text, -List.lookup_eq_none_iff, self, found]

def digitsAsked : Context := [("request", .obj [("instructions", .str "42")])]

def systemTemplate : Template systemJinja.isName :=
  .dict [("system", .expression (.request "instructions" rfl))]

/-- Instructions that have only digits become an int. -/
theorem instructions_of_digits : ¬ ∃ result,
    renderJinja asciiDigits systemJinja digitsAsked systemTemplate.json = some result ∧
      Keeps systemJinja digitsAsked True systemTemplate result := by
  rintro ⟨result, render, keeps⟩
  have number : renderJinja asciiDigits systemJinja digitsAsked systemTemplate.json =
      some (.obj [("system", .int 42)]) := rfl
  obtain rfl : result = .obj [("system", .int 42)] := by simpa [number, eq_comm] using render
  obtain ⟨members, eq, keeps⟩ := keeps
  obtain rfl := Json.obj.inj eq
  have text : found systemJinja digitsAsked (.request "instructions" rfl) =
      some (.data (.str "42")) := rfl
  obtain ⟨first, others, eq, keep, _⟩ | ⟨absent, _⟩ := keeps
  · simp only [Keeps, Kept, text] at keep
    simp [keep] at eq
  · simp [MayLack, text] at absent

end Instructions

end Template

end Deeting.Protocols
