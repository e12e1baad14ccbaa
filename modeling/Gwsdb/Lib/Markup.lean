import Mathlib.Data.List.Basic
import Mathlib.Tactic

/-!
# Reading markup

A strict reader of HTML: tags are closed in order, values stand in double quotes, and `&` starts a known reference. It tells
markup, the characters of texts and those of values apart, with the references resolved. A template is markup with holes for data.
If the template alone is read through (`place`), a page made from it is read with every datum in its hole, character by character,
whatever the data are (`read_render`), and its markup is that of the page without data (`read_blank`).
-/

namespace Markup

/-! ## The reader -/

/-- The name of an element. -/
abbrev Name := List Char

/-- Where the reader is. -/
inductive Mode where
  | content
  /-- In a reference, in content or in a value of a tag. -/
  | reference (inside : Option Name) (name : List Char)
  | opened
  | declaration
  | name (closing : Bool) (name : Name)
  /-- Among the attributes of a tag, after an equals sign or not. -/
  | attributes (name : Name) (equals : Bool)
  | value (name : Name)
  | closed (name : Name)

/-- The reader: where it is, and the elements that are open, the innermost first. -/
structure State where
  mode : Mode
  elements : List Name

/-- What is read. -/
inductive Event where
  | markup (c : Char)
  | text (c : Char)
  | value (c : Char)
  deriving DecidableEq

/-- The elements without an end tag. -/
def isVoid : Name → Bool
  | ['a', 'r', 'e', 'a'] | ['b', 'a', 's', 'e'] | ['b', 'r'] | ['c', 'o', 'l'] | ['e', 'm', 'b', 'e', 'd'] | ['h', 'r']
  | ['i', 'm', 'g'] | ['i', 'n', 'p', 'u', 't'] | ['l', 'i', 'n', 'k'] | ['m', 'e', 't', 'a'] | ['s', 'o', 'u', 'r', 'c', 'e']
  | ['t', 'r', 'a', 'c', 'k'] | ['w', 'b', 'r'] => true
  | _ => false

/-- The character of a reference. -/
def referent : List Char → Option Char
  | ['a', 'm', 'p'] => some '&'
  | ['l', 't'] => some '<'
  | ['g', 't'] => some '>'
  | ['q', 'u', 'o', 't'] => some '"'
  | ['n', 'b', 's', 'p'] => some '\u00a0'
  | ['h', 'e', 'l', 'l', 'i', 'p'] => some '…'
  | ['#', '3', '9'] => some '\''
  | ['#', '8', '5', '9', '3'] => some '↑'
  | ['#', '8', '5', '9', '5'] => some '↓'
  | ['#', 'x', '2', '7', '1', '3'] => some '✓'
  | ['#', 'x', '2', '7', '1', '7'] => some '✗'
  | _ => none

/-- A character of the name of an element. -/
def isNameChar (c : Char) : Bool := c.isLower || c.isDigit

/-- The start tag of an element is at its end. -/
def State.start (s : State) (name : Name) : State := ⟨.content, if isVoid name then s.elements else name :: s.elements⟩

/-- The end tag is that of the innermost element. -/
def State.finish (s : State) (name : Name) : Option State :=
  match s.elements with
  | [] => none
  | top :: rest => if top = name then some ⟨.content, rest⟩ else none

/-- One character is read. -/
def step (s : State) (c : Char) : Option (Option Event × State) :=
  match s.mode with
  | .content =>
    if c = '<' then some (some (.markup c), { s with mode := .opened })
    else if c = '&' then some (none, { s with mode := .reference none [] })
    else some (some (.text c), s)
  | .reference inside name =>
    if c = ';' then
      (referent name).map fun c => match inside with
        | none => (some (.text c), { s with mode := .content })
        | some tag => (some (.value c), { s with mode := .value tag })
    else if c.isAlphanum || c = '#' then some (none, { s with mode := .reference inside (name ++ [c]) })
    else none
  | .opened =>
    if c = '!' then some (some (.markup c), { s with mode := .declaration })
    else if c = '/' then some (some (.markup c), { s with mode := .name true [] })
    else if c.isLower then some (some (.markup c), { s with mode := .name false [c] })
    else none
  | .declaration =>
    if c = '>' then some (some (.markup c), { s with mode := .content })
    else if c = '<' then none
    else some (some (.markup c), s)
  | .name closing name =>
    if isNameChar c then some (some (.markup c), { s with mode := .name closing (name ++ [c]) })
    else if c = '>' then ((if closing then s.finish name else some (s.start name))).map fun s' => (some (.markup c), s')
    else if c = ' ' ∧ closing = false then some (some (.markup c), { s with mode := .attributes name false })
    else none
  | .attributes name true => if c = '"' then some (some (.markup c), { s with mode := .value name }) else none
  | .attributes name false =>
    if c = '>' then some (some (.markup c), s.start name)
    else if c = '=' then some (some (.markup c), { s with mode := .attributes name true })
    else if c.isAlphanum || c = '-' || c = ' ' then some (some (.markup c), s)
    else none
  | .value name =>
    if c = '"' then some (some (.markup c), { s with mode := .closed name })
    else if c = '&' then some (none, { s with mode := .reference (some name) [] })
    else some (some (.value c), s)
  | .closed name =>
    if c = '>' then some (some (.markup c), s.start name)
    else if c = ' ' then some (some (.markup c), { s with mode := .attributes name false })
    else none

/-- The characters of a page are read one by one. -/
def read : State → List Char → Option (List Event × State)
  | s, [] => some ([], s)
  | s, c :: cs => (step s c).bind fun r => (read r.2 cs).map fun rest => (r.1.toList ++ rest.1, rest.2)

/-- A text is read in two parts. -/
theorem read_append (s : State) (cs ds : List Char) :
    read s (cs ++ ds) = (read s cs).bind fun r => (read r.2 ds).map fun rest => (r.1 ++ rest.1, rest.2) := by
  induction cs generalizing s with
  | nil => cases h : read s ds <;> simp [read, h]
  | cons c cs ih =>
    rw [List.cons_append, read, read]
    cases step s c with
    | none => rfl
    | some r =>
      show (read r.2 (cs ++ ds)).map _ = ((read r.2 cs).map _).bind _
      rw [ih]
      cases read r.2 cs with
      | none => rfl
      | some r' => cases h : read r'.2 ds <;> simp [h]

/-- What the parts are read as, the whole is. -/
theorem read_append_of {s s' s'' : State} {cs ds : List Char} {es fs : List Event} (h : read s cs = some (es, s'))
    (h' : read s' ds = some (fs, s'')) : read s (cs ++ ds) = some (es ++ fs, s'') := by
  rw [read_append, h, Option.bind_some, h']
  rfl

/-- A page begins and ends in content, with no element open. -/
def State.outside : State := ⟨.content, []⟩

/-! ## Data -/

/-- A place for a datum, with the event that a character is there. -/
def Mode.hole : Mode → Option (Char → Event)
  | .content => some .text
  | .value _ => some .value
  | _ => none

/-- What is written for a datum, and what it means: in content and in a value it is read as that. -/
structure Datum where
  written : List Char
  meant : List Char
  reads : ∀ s f, s.mode.hole = some f → read s written = some (meant.map f, s)

/-- A text whose characters are written one by one, so that each is read again. -/
def Datum.ofChars (write : Char → List Char) (h : ∀ c s f, s.mode.hole = some f → read s (write c) = some ([f c], s))
    (meant : List Char) : Datum where
  written := meant.flatMap write
  meant
  reads s f hf := by
    induction meant with
    | nil => rfl
    | cons c cs ih =>
      rw [List.flatMap_cons]
      exact read_append_of (h c s f hf) ih

/-- A character that the reader takes for itself. -/
def isPlain (c : Char) : Bool := c ≠ '<' && c ≠ '&' && c ≠ '"'

/-- A plain character in a place for text is read as itself. -/
theorem read_plain {c : Char} (h : isPlain c = true) {s : State} {f : Char → Event} (hf : s.mode.hole = some f) :
    read s [c] = some ([f c], s) := by
  obtain ⟨mode, elements⟩ := s
  simp only [isPlain, Bool.and_eq_true, decide_eq_true_eq] at h
  obtain ⟨⟨hlt, hamp⟩, hquote⟩ := h
  cases mode with
  | content =>
    cases hf
    simp [read, step, hlt, hamp]
  | value name =>
    cases hf
    simp [read, step, hquote, hamp]
  | _ => cases hf

/-- A text of such characters, as it is. -/
def Datum.plain (meant : List Char) (h : ∀ c ∈ meant, isPlain c = true) : Datum where
  written := meant
  meant
  reads s f hf := by
    induction meant with
    | nil => rfl
    | cons c cs ih =>
      obtain ⟨hc, hcs⟩ := List.forall_mem_cons.1 h
      have hfirst := read_plain hc hf
      exact read_append_of hfirst (ih hcs)

/-- No datum. -/
def Datum.none : Datum := Datum.plain [] (by simp)

/-! ## Templates -/

/-- A piece of a template. -/
inductive Piece where
  | lit (s : String)
  | hole (d : Datum)

/-- A template, filled in. -/
abbrev Template := List Piece

/-- The page. -/
def render : Template → List Char
  | [] => []
  | .lit s :: t => s.toList ++ render t
  | .hole d :: t => d.written ++ render t

/-- What the page should be read as: the markup and the texts of the template, and each datum where its hole is. -/
def outline : State → Template → Option (List Event × State)
  | s, [] => some ([], s)
  | s, .lit l :: t => (read s l.toList).bind fun r => (outline r.2 t).map fun rest => (r.1 ++ rest.1, rest.2)
  | s, .hole d :: t => s.mode.hole.bind fun f => (outline s t).map fun rest => (d.meant.map f ++ rest.1, rest.2)

/-- A template is read as its outline says. -/
theorem read_render {s s' : State} {t : Template} {es : List Event} (h : outline s t = some (es, s')) :
    read s (render t) = some (es, s') := by
  induction t generalizing s es with
  | nil => exact h
  | cons p t ih =>
    cases p with
    | lit l =>
      obtain ⟨⟨es₁, s₁⟩, hread, hrest⟩ := Option.bind_eq_some_iff.1 h
      obtain ⟨⟨es₂, s₂⟩, htail, heq⟩ := Option.map_eq_some_iff.1 hrest
      cases heq
      exact read_append_of hread (ih htail)
    | hole d =>
      obtain ⟨f, hf, hrest⟩ := Option.bind_eq_some_iff.1 h
      obtain ⟨⟨es₂, s₂⟩, htail, heq⟩ := Option.map_eq_some_iff.1 hrest
      cases heq
      exact read_append_of (d.reads s f hf) (ih htail)

/-- The template without its data. -/
def blank : Template → Template
  | [] => []
  | .lit l :: t => .lit l :: blank t
  | .hole _ :: t => .hole Datum.none :: blank t

/-- An event that is none of a text or a value. -/
def Event.isMarkup : Event → Bool
  | .markup _ => true
  | _ => false

/-- What fills a hole is no markup. -/
theorem isMarkup_hole {mode : Mode} {f : Char → Event} (h : mode.hole = some f) (c : Char) : (f c).isMarkup = false := by
  cases mode with
  | content => cases h; rfl
  | value name => cases h; rfl
  | _ => cases h

/-- Its markup is the same. -/
theorem outline_blank {s s' : State} {t : Template} {es : List Event} (h : outline s t = some (es, s')) :
    ∃ es', outline s (blank t) = some (es', s') ∧ es'.filter Event.isMarkup = es.filter Event.isMarkup := by
  induction t generalizing s es with
  | nil => exact ⟨es, h, rfl⟩
  | cons p t ih =>
    cases p with
    | lit l =>
      obtain ⟨⟨es₁, s₁⟩, hread, hrest⟩ := Option.bind_eq_some_iff.1 h
      obtain ⟨⟨es₂, s₂⟩, htail, heq⟩ := Option.map_eq_some_iff.1 hrest
      cases heq
      obtain ⟨es', hblank, hmarkup⟩ := ih htail
      refine ⟨es₁ ++ es', ?_, ?_⟩
      · show (read s l.toList).bind _ = _
        rw [hread, Option.bind_some, hblank]
        rfl
      · rw [List.filter_append, List.filter_append, hmarkup]
    | hole d =>
      obtain ⟨f, hf, hrest⟩ := Option.bind_eq_some_iff.1 h
      obtain ⟨⟨es₂, s₂⟩, htail, heq⟩ := Option.map_eq_some_iff.1 hrest
      cases heq
      obtain ⟨es', hblank, hmarkup⟩ := ih htail
      refine ⟨es', ?_, ?_⟩
      · show s.mode.hole.bind _ = _
        rw [hf, Option.bind_some, hblank]
        rfl
      · have hnone : (d.meant.map f).filter Event.isMarkup = [] := by
          rw [List.filter_eq_nil_iff]
          intro e he
          obtain ⟨c, -, rfl⟩ := List.mem_map.1 he
          simp [isMarkup_hole hf c]
        rw [List.filter_append, hnone, List.nil_append, hmarkup]

/-! ## Reading the template alone -/

/-- The reader after a literal. -/
def through : State → List Char → Option State
  | s, [] => some s
  | s, c :: cs => (step s c).bind fun r => through r.2 cs

/-- Where a text leads is where it is read to. -/
theorem through_eq (s : State) (cs : List Char) : through s cs = (read s cs).map Prod.snd := by
  induction cs generalizing s with
  | nil => rfl
  | cons c cs ih =>
    rw [through, read]
    cases step s c with
    | none => rfl
    | some r =>
      show through r.2 cs = ((read r.2 cs).map _).map Prod.snd
      rw [ih, Option.map_map]
      rfl

/-- The reader after a template, which does not depend on the data. -/
def place : State → Template → Option State
  | s, [] => some s
  | s, .lit l :: t => (through s l.toList).bind fun s' => place s' t
  | s, .hole _ :: t => s.mode.hole.bind fun _ => place s t

/-- A template that has a place has an outline. -/
theorem outline_of_place {s s' : State} {t : Template} (h : place s t = some s') : ∃ es, outline s t = some (es, s') := by
  induction t generalizing s with
  | nil =>
    cases h
    exact ⟨[], rfl⟩
  | cons p t ih =>
    cases p with
    | lit l =>
      obtain ⟨s₁, hthrough, hrest⟩ := Option.bind_eq_some_iff.1 h
      rw [through_eq] at hthrough
      obtain ⟨⟨es₁, s₁⟩, hread, rfl⟩ := Option.map_eq_some_iff.1 hthrough
      obtain ⟨es, hes⟩ := ih hrest
      refine ⟨es₁ ++ es, ?_⟩
      show (read s l.toList).bind _ = _
      rw [hread, Option.bind_some, hes]
      rfl
    | hole d =>
      obtain ⟨f, hf, hrest⟩ := Option.bind_eq_some_iff.1 h
      obtain ⟨es, hes⟩ := ih hrest
      refine ⟨d.meant.map f ++ es, ?_⟩
      show s.mode.hole.bind _ = _
      rw [hf, Option.bind_some, hes]
      rfl

/-- Two templates in a row have a place one after the other. -/
theorem place_append (s : State) (t u : Template) : place s (t ++ u) = (place s t).bind fun s' => place s' u := by
  induction t generalizing s with
  | nil => rfl
  | cons p t ih =>
    cases p with
    | lit l =>
      show (through s l.toList).bind _ = ((through s l.toList).bind _).bind _
      rw [Option.bind_assoc]
      exact Option.bind_congr fun s' _ => ih s'
    | hole d =>
      show s.mode.hole.bind _ = (s.mode.hole.bind _).bind _
      rw [Option.bind_assoc]
      exact Option.bind_congr fun _ _ => ih s

/-- A literal, given by its characters, comes first. -/
theorem place_lit {s s' : State} {cs : List Char} {t : Template} (h : through s cs = some s') :
    place s (.lit (String.ofList cs) :: t) = place s' t := by
  rw [place, String.toList_ofList, h, Option.bind_some]

/-- A hole in content or in a value. -/
theorem place_hole {s : State} {d : Datum} {t : Template} {f : Char → Event} (h : s.mode.hole = some f) :
    place s (.hole d :: t) = place s t := by
  rw [place, h, Option.bind_some]

/-- A template of content: what it opens it closes. -/
def Fits (t : Template) : Prop := ∀ elements, place ⟨.content, elements⟩ t = some ⟨.content, elements⟩

theorem fits_nil : Fits [] := fun _ => rfl

/-- A hole fits. -/
theorem fits_hole (d : Datum) : Fits [.hole d] := fun _ => rfl

/-- Two parts that fit, fit in a row. -/
theorem Fits.append {t u : Template} (ht : Fits t) (hu : Fits u) : Fits (t ++ u) := by
  intro elements
  rw [place_append, ht, Option.bind_some, hu]

/-- Such a template comes next. -/
theorem Fits.place_append {t : Template} (ht : Fits t) (elements : List Name) (u : Template) :
    place ⟨.content, elements⟩ (t ++ u) = place ⟨.content, elements⟩ u := by
  rw [Markup.place_append, ht, Option.bind_some]

/-- A hole fits between two texts when the second one closes what the first one opens. -/
theorem fits_hole_between {f : Char → Event} {opening closing : List Char} {d : Datum}
    (h : ∀ elements, ∃ s, through ⟨.content, elements⟩ opening = some s ∧ s.mode.hole = some f ∧
      through s closing = some ⟨.content, elements⟩) :
    Fits [.lit (String.ofList opening), .hole d, .lit (String.ofList closing)] := by
  intro elements
  obtain ⟨s, hopening, hhole, hclosing⟩ := h elements
  rw [place_lit hopening, place_hole hhole]
  exact place_lit hclosing

/-- A template that fits does so between two others when the second one closes what the first one opens. -/
theorem Fits.between {t opening closing : Template} (ht : Fits t)
    (h : ∀ elements, ∃ inner, place ⟨.content, elements⟩ opening = some ⟨.content, inner⟩ ∧
      place ⟨.content, inner⟩ closing = some ⟨.content, elements⟩) :
    Fits (opening ++ t ++ closing) := by
  intro elements
  obtain ⟨inner, hopening, hclosing⟩ := h elements
  rw [List.append_assoc, Markup.place_append, hopening, Option.bind_some, ht.place_append, hclosing]

/-- So do the parts for the elements of a list. -/
theorem fits_flatMap {α : Type} {xs : List α} {f : α → Template} (h : ∀ x ∈ xs, Fits (f x)) : Fits (xs.flatMap f) := by
  induction xs with
  | nil => exact fits_nil
  | cons x xs ih =>
    obtain ⟨hx, hxs⟩ := List.forall_mem_cons.1 h
    exact hx.append (ih hxs)

/-- So do parts with one that fits between them. -/
theorem fits_intercalate {sep : Template} {ts : List Template} (hsep : Fits sep) (h : ∀ t ∈ ts, Fits t) :
    Fits (sep.intercalate ts) := by
  induction ts with
  | nil => exact fits_nil
  | cons t ts ih =>
    obtain ⟨ht, hts⟩ := List.forall_mem_cons.1 h
    cases ts with
    | nil => rwa [List.intercalate_singleton]
    | cons u us =>
      rw [List.intercalate_cons_cons]
      exact (ht.append hsep).append (ih hts)

/-- A page is read to its end as its template says, with every datum in its hole, and its markup is
that of the page without data. -/
def Exact (t : Template) : Prop :=
  ∃ es, read .outside (render t) = some (es, .outside) ∧ outline .outside t = some (es, .outside) ∧
    ∃ es', read .outside (render (blank t)) = some (es', .outside) ∧ es'.filter Event.isMarkup = es.filter Event.isMarkup

/-- A document that begins and ends outside of all elements is read exactly. -/
theorem exact_of_place {t : Template} (h : place .outside t = some .outside) : Exact t := by
  obtain ⟨es, hes⟩ := outline_of_place h
  obtain ⟨es', hblank, hmarkup⟩ := outline_blank hes
  exact ⟨es, read_render hes, hes, es', read_render hblank, hmarkup⟩

end Markup
