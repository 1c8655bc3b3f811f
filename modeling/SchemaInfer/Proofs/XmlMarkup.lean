import SchemaInfer.Xml
import Mathlib.Data.List.Basic

/-!
# The markup of XML documents

`scan` reads a text as a row of opening, closing and single tags with the texts between them, one
character at a time. What it needs to know is in its mode, so that reading a text piece by piece is
reading the whole (`run_append`). The text of a tree is read as `tokens` lists it (`scan_document`), if
its tags and attributes have plain names.

About these tokens it is then shown that the tags are nested (`track_tokens`), that nothing in an
attribute value or between tags can be taken for markup (`clean_tokens`), and that decoding the texts of
the elements with a certain tag gives back the texts that stand in the tree (`textsOf_tokens`).
-/

namespace SchemaInfer.Xml

/-! ### Reading markup -/

/-- The name and the attributes of a tag. Attribute values are as they are written. -/
structure Tag where
  name : List Char
  attributes : List (List Char × List Char)

/-- A piece of a document: a tag, or the text between two tags. -/
inductive Token where
  | opening (tag : Tag)
  | closing (name : List Char)
  | single (tag : Tag)
  | text (content : List Char)

/-- The characters of the names in tags. -/
def isTagChar (c : Char) : Bool :=
  c.isAlphanum || c == ':'

/-- Where in a document reading has come to, with what was read of the piece at hand. -/
inductive Mode where
  | text (content : List Char)
  | bracket
  | name (sofar : List Char)
  | endName (sofar : List Char)
  | blank (tag : Tag)
  | attrName (tag : Tag) (sofar : List Char)
  | equals (tag : Tag) (attr : List Char)
  | value (tag : Tag) (attr sofar : List Char)
  | part (tag : Tag)
  | slash (tag : Tag)

/-- What may follow the name of a tag and each of its attributes. -/
def stepPart (tag : Tag) (c : Char) : Option (List Token × Mode) :=
  if c = '>' then some ([.opening tag], .text [])
  else if c = '/' then some ([], .slash tag)
  else if c = ' ' then some ([], .blank tag)
  else none

/-- Reads one character. There is no result where it cannot stand. -/
def step : Mode → Char → Option (List Token × Mode)
  | .text content, c =>
    if c = '<' then some ([.text content], .bracket) else some ([], .text (content ++ [c]))
  | .bracket, c =>
    if isTagChar c then some ([], .name [c]) else if c = '/' then some ([], .endName []) else none
  | .name sofar, c =>
    if isTagChar c then some ([], .name (sofar ++ [c])) else stepPart ⟨sofar, []⟩ c
  | .endName sofar, c =>
    if isTagChar c then some ([], .endName (sofar ++ [c]))
    else if c = '>' then some ([.closing sofar], .text [])
    else none
  | .blank tag, c => if isTagChar c then some ([], .attrName tag [c]) else none
  | .attrName tag sofar, c =>
    if isTagChar c then some ([], .attrName tag (sofar ++ [c]))
    else if c = '=' then some ([], .equals tag sofar)
    else none
  | .equals tag attr, c => if c = '"' then some ([], .value tag attr []) else none
  | .value tag attr sofar, c =>
    if c = '"' then some ([], .part ⟨tag.name, tag.attributes ++ [(attr, sofar)]⟩)
    else some ([], .value tag attr (sofar ++ [c]))
  | .part tag, c => stepPart tag c
  | .slash tag, c => if c = '>' then some ([.single tag], .text []) else none

/-- Reads characters one after the other. -/
def run : Mode → List Char → Option (List Token × Mode)
  | mode, [] => some ([], mode)
  | mode, c :: cs => do
    let (tokens, next) ← step mode c
    let (others, last) ← run next cs
    return (tokens ++ others, last)

/-- The pieces of a text, if it is markup. -/
def scan (cs : List Char) : Option (List Token) :=
  match run (.text []) cs with
  | some (tokens, .text content) => some (tokens ++ [.text content])
  | _ => none

/-! ### Nothing is lost -/

def Tag.chars (tag : Tag) : List Char :=
  tag.name ++ tag.attributes.flatMap fun (name, value) => ' ' :: (name ++ '=' :: '"' :: (value ++ ['"']))

/-- The text of a token. -/
def Token.chars : Token → List Char
  | .opening tag => '<' :: (tag.chars ++ ['>'])
  | .closing name => '<' :: '/' :: (name ++ ['>'])
  | .single tag => '<' :: (tag.chars ++ ['/', '>'])
  | .text content => content

/-- The text of the piece at hand. -/
def Mode.chars : Mode → List Char
  | .text content => content
  | .bracket => ['<']
  | .name sofar => '<' :: sofar
  | .endName sofar => '<' :: '/' :: sofar
  | .blank tag => '<' :: (tag.chars ++ [' '])
  | .attrName tag sofar => '<' :: (tag.chars ++ ' ' :: sofar)
  | .equals tag attr => '<' :: (tag.chars ++ ' ' :: (attr ++ ['=']))
  | .value tag attr sofar => '<' :: (tag.chars ++ ' ' :: (attr ++ '=' :: '"' :: sofar))
  | .part tag => '<' :: tag.chars
  | .slash tag => '<' :: (tag.chars ++ ['/'])

theorem chars_of_stepPart {tag : Tag} {c : Char} {found : List Token} {next : Mode}
    (h : stepPart tag c = some (found, next)) :
    '<' :: (tag.chars ++ [c]) = found.flatMap Token.chars ++ next.chars := by
  unfold stepPart at h
  split_ifs at h with hend hslash hblank
  all_goals
    cases h
    simp [*, Token.chars, Mode.chars]

theorem chars_of_step {mode next : Mode} {c : Char} {found : List Token}
    (h : step mode c = some (found, next)) :
    mode.chars ++ [c] = found.flatMap Token.chars ++ next.chars := by
  cases mode with
  | part tag => exact chars_of_stepPart h
  | name sofar =>
    rw [step] at h
    split_ifs at h
    · cases h
      simp [Mode.chars]
    · have hpart := chars_of_stepPart h
      simpa [Tag.chars, Mode.chars] using hpart
  | _ =>
    simp only [step] at h
    split_ifs at h
    all_goals
      cases h
      simp [*, Token.chars, Mode.chars, Tag.chars]

theorem chars_of_run {mode last : Mode} {cs : List Char} {found : List Token}
    (h : run mode cs = some (found, last)) :
    mode.chars ++ cs = found.flatMap Token.chars ++ last.chars := by
  induction cs generalizing mode found with
  | nil =>
    cases h
    simp
  | cons c cs ih =>
    simp only [run, Option.bind_eq_bind, Option.bind_eq_some_iff, Option.pure_def] at h
    obtain ⟨⟨first, next⟩, hstep, ⟨others, final⟩, hrun, heq⟩ := h
    obtain ⟨rfl, rfl⟩ := Prod.mk.inj (Option.some.inj heq)
    have hfirst := chars_of_step hstep
    have hothers := ih hrun
    dsimp only at hothers ⊢
    calc mode.chars ++ c :: cs = mode.chars ++ [c] ++ cs := by simp
      _ = first.flatMap Token.chars ++ (next.chars ++ cs) := by rw [hfirst, List.append_assoc]
      _ = (first ++ others).flatMap Token.chars ++ final.chars := by
          rw [hothers, List.flatMap_append, List.append_assoc]

/-- The pieces that a text is read as make up the text. -/
theorem chars_of_scan {cs : List Char} {found : List Token} (h : scan cs = some found) :
    found.flatMap Token.chars = cs := by
  unfold scan at h
  split at h
  · rename_i tokens content hrun
    cases h
    have hchars := chars_of_run hrun
    simpa [Mode.chars, Token.chars] using hchars.symm
  · cases h

/-! ### What markup has to be -/

/-- The names of the elements that are open after a token; there is no result if it closes another element
than the one opened last. -/
def track (stack : List (List Char)) : Token → Option (List (List Char))
  | .opening tag => some (tag.name :: stack)
  | .closing name =>
    match stack with
    | top :: rest => if name = top then some rest else none
    | [] => none
  | .single _ => some stack
  | .text _ => some stack

/-- Every element that is opened is closed, the one opened last first. -/
def Nested (tokens : List Token) : Prop :=
  tokens.foldlM track [] = some []

/-- The characters that have a meaning in markup. -/
def reserved : List Char := ['&', '<', '>', '"']

/-- What follows an ampersand. -/
def entities : List (List Char) :=
  [['a', 'm', 'p', ';'], ['l', 't', ';'], ['g', 't', ';'], ['q', 'u', 'o', 't', ';']]

/-- No bracket, no quote, and no ampersand but those of entities. -/
structure Clean (cs : List Char) : Prop where
  less : '<' ∉ cs
  greater : '>' ∉ cs
  quote : '"' ∉ cs
  ampersand : ∀ before after, cs = before ++ '&' :: after → ∃ entity ∈ entities, entity <+: after

/-- The values and texts in a token are clean. -/
def Token.Clean : Token → Prop
  | .opening tag | .single tag => ∀ attr ∈ tag.attributes, Xml.Clean attr.2
  | .closing _ => True
  | .text content => Xml.Clean content

/-- Puts characters for entities. There is no result if a character stands there that needs one. -/
def decode : List Char → Option (List Char)
  | [] => some []
  | '&' :: 'a' :: 'm' :: 'p' :: ';' :: cs => (decode cs).map ('&' :: ·)
  | '&' :: 'l' :: 't' :: ';' :: cs => (decode cs).map ('<' :: ·)
  | '&' :: 'g' :: 't' :: ';' :: cs => (decode cs).map ('>' :: ·)
  | '&' :: 'q' :: 'u' :: 'o' :: 't' :: ';' :: cs => (decode cs).map ('"' :: ·)
  | c :: cs => if c ∈ reserved then none else (decode cs).map (c :: ·)

/-- The text at the front of a document. -/
def leadingText : List Token → List (List Char)
  | .text content :: _ => [content]
  | _ => []

/-- The texts that follow the opening tags with a name. -/
def textsOf (name : List Char) : List Token → List (List Char)
  | [] => []
  | .opening tag :: rest =>
    if tag.name = name then leadingText rest ++ textsOf name rest else textsOf name rest
  | _ :: rest => textsOf name rest

/-! ### The tokens of a tree -/

/-- A tag as it is written. -/
def written (tag : String) (attributes : List (String × String)) : Tag where
  name := tag.toList
  attributes := attributes.map fun (name, value) => (name.toList, (escape value).toList)

/-- The line end and the blanks in front of a tag. -/
def indentation (depth : Nat) : List Char :=
  '\n' :: List.replicate (2 * depth) ' '

mutual

/-- The tokens of an element at the given depth, with the blanks in front of its tags. -/
def tokens (depth : Nat) : Xml → List Token
  | empty tag attributes => [.text (indentation depth), .single (written tag attributes)]
  | text tag attributes content =>
    [.text (indentation depth), .opening (written tag attributes), .text (escape content).toList,
      .closing tag.toList]
  | node tag attributes children =>
    .text (indentation depth) :: .opening (written tag attributes)
      :: (tokensOfAll (depth + 1) children ++ [.text (indentation depth), .closing tag.toList])
termination_by structural xml => xml

def tokensOfAll (depth : Nat) : List Xml → List Token
  | [] => []
  | child :: children => child.tokens depth ++ tokensOfAll depth children
termination_by structural children => children

end

/-- A name that can stand in a tag. -/
def PlainName (name : String) : Prop :=
  name.toList ≠ [] ∧ ∀ c ∈ name.toList, isTagChar c = true

instance (name : String) : Decidable (PlainName name) :=
  decidable_of_iff (name.toList ≠ [] ∧ name.toList.all isTagChar = true)
    (by simp [PlainName])

/-- A tag with names that can stand in it. -/
def PlainTag (tag : String) (attributes : List (String × String)) : Prop :=
  PlainName tag ∧ ∀ name ∈ attributes.map Prod.fst, PlainName name

mutual

/-- All names in tags are plain, and the elements that hold text are those with the tag `leaf`. -/
def Regular (leaf : String) : Xml → Prop
  | empty tag attributes => PlainTag tag attributes
  | text tag attributes _ => PlainTag tag attributes ∧ tag = leaf
  | node tag attributes children => PlainTag tag attributes ∧ tag ≠ leaf ∧ RegularAll leaf children
termination_by structural xml => xml

def RegularAll (leaf : String) : List Xml → Prop
  | [] => True
  | child :: children => child.Regular leaf ∧ RegularAll leaf children
termination_by structural children => children

end

mutual

/-- The texts of the elements with the tag `leaf`. -/
def textsIn (leaf : String) : Xml → List String
  | empty _ _ => []
  | text tag _ content => if tag = leaf then [content] else []
  | node _ _ children => textsInAll leaf children
termination_by structural xml => xml

def textsInAll (leaf : String) : List Xml → List String
  | [] => []
  | child :: children => child.textsIn leaf ++ textsInAll leaf children
termination_by structural children => children

end

/-! ### Escaping -/

theorem escapeChar_cases (c : Char) :
    (c ∉ reserved ∧ escapeChar c = [c]) ∨ ∃ entity ∈ entities, escapeChar c = '&' :: entity := by
  unfold escapeChar
  by_cases hamp : c = '&'
  · simp [hamp, entities]
  by_cases hless : c = '<'
  · simp [hless, entities]
  by_cases hgreater : c = '>'
  · simp [hgreater, entities]
  by_cases hquote : c = '"'
  · simp [hquote, entities]
  · simp [reserved, hamp, hless, hgreater, hquote]

theorem clean_nil : Clean [] where
  less := by simp
  greater := by simp
  quote := by simp
  ampersand := by simp

theorem Clean.cons {c : Char} {cs : List Char} (hc : c ∉ reserved) (hcs : Clean cs) :
    Clean (c :: cs) := by
  simp only [reserved, List.mem_cons, List.not_mem_nil, or_false, not_or] at hc
  obtain ⟨hamp, hless, hgreater, hquote⟩ := hc
  refine ⟨?_, ?_, ?_, ?_⟩
  · simp [Ne.symm hless, hcs.less]
  · simp [Ne.symm hgreater, hcs.greater]
  · simp [Ne.symm hquote, hcs.quote]
  · intro before after h
    cases before with
    | nil =>
      simp only [List.nil_append, List.cons.injEq] at h
      exact absurd h.1 hamp
    | cons first before =>
      simp only [List.cons_append, List.cons.injEq] at h
      exact hcs.ampersand before after h.2

theorem not_reserved_of_entity {entity : List Char} (h : entity ∈ entities) :
    ∀ c ∈ entity, c ∉ reserved := by
  simp only [entities, List.mem_cons, List.not_mem_nil, or_false] at h
  rcases h with rfl | rfl | rfl | rfl <;> simp [reserved]

theorem Clean.append {cs ds : List Char} (hcs : ∀ c ∈ cs, c ∉ reserved) (hds : Clean ds) :
    Clean (cs ++ ds) := by
  induction cs with
  | nil => exact hds
  | cons c cs ih =>
    obtain ⟨hc, hcs⟩ := List.forall_mem_cons.mp hcs
    exact (ih hcs).cons hc

theorem Clean.entity {entity cs : List Char} (hentity : entity ∈ entities) (hcs : Clean cs) :
    Clean ('&' :: (entity ++ cs)) := by
  have hrest : Clean (entity ++ cs) := hcs.append (not_reserved_of_entity hentity)
  refine ⟨?_, ?_, ?_, ?_⟩
  · simp only [List.mem_cons, not_or]
    exact ⟨by decide, hrest.less⟩
  · simp only [List.mem_cons, not_or]
    exact ⟨by decide, hrest.greater⟩
  · simp only [List.mem_cons, not_or]
    exact ⟨by decide, hrest.quote⟩
  · intro before after h
    cases before with
    | nil =>
      simp only [List.nil_append, List.cons.injEq, true_and] at h
      exact ⟨entity, hentity, h ▸ List.prefix_append entity cs⟩
    | cons first before =>
      simp only [List.cons_append, List.cons.injEq] at h
      exact hrest.ampersand before after h.2

theorem clean_escape (text : String) : Clean (escape text).toList := by
  rw [escape, String.toList_ofList]
  induction text.toList with
  | nil => exact clean_nil
  | cons c cs ih =>
    rw [List.flatMap_cons]
    rcases escapeChar_cases c with ⟨hc, heq⟩ | ⟨entity, hentity, heq⟩
    · rw [heq]
      exact ih.cons hc
    · rw [heq]
      exact ih.entity hentity

theorem decode_escape (text : String) : decode (escape text).toList = some text.toList := by
  rw [escape, String.toList_ofList]
  induction text.toList with
  | nil => rfl
  | cons c cs ih =>
    rw [List.flatMap_cons, escapeChar]
    split_ifs with hamp hless hgreater hquote
    · simp [decode, ih, hamp]
    · simp [decode, ih, hless]
    · simp [decode, ih, hgreater]
    · simp [decode, ih, hquote]
    · have hc : c ∉ reserved := by simp [reserved, hamp, hless, hgreater, hquote]
      rw [List.singleton_append, decode.eq_def]
      split <;> simp_all

/-! ### Reading the text of a tree -/

section Run

variable {mode next last : Mode} {cs ds : List Char} {before after : List Token} {tag : Tag}

theorem run_append (hcs : run mode cs = some (before, next)) (hds : run next ds = some (after, last)) :
    run mode (cs ++ ds) = some (before ++ after, last) := by
  induction cs generalizing mode before with
  | nil =>
    cases hcs
    exact hds
  | cons c cs ih =>
    simp only [run, Option.bind_eq_bind, Option.bind_eq_some_iff, Option.pure_def] at hcs
    obtain ⟨⟨first, middle⟩, hstep, ⟨others, final⟩, hrun, heq⟩ := hcs
    cases heq
    simp [run, hstep, ih hrun]

theorem run_cons {c : Char} (hc : step mode c = some (before, next))
    (hcs : run next cs = some (after, last)) : run mode (c :: cs) = some (before ++ after, last) := by
  simp [run, hc, hcs]

/-- Reads characters that all go into the piece at hand. -/
theorem run_collect {collect : List Char → Mode}
    (h : ∀ sofar, ∀ c ∈ cs, step (collect sofar) c = some ([], collect (sofar ++ [c])))
    (sofar : List Char) : run (collect sofar) cs = some ([], collect (sofar ++ cs)) := by
  induction cs generalizing sofar with
  | nil => simp [run]
  | cons c cs ih =>
    have hcs := ih (fun sofar d hd => h sofar d (List.mem_cons_of_mem _ hd)) (sofar ++ [c])
    rw [List.append_assoc] at hcs
    exact run_cons (h sofar c List.mem_cons_self) hcs

theorem run_text (h : '<' ∉ cs) (content : List Char) :
    run (.text content) cs = some ([], .text (content ++ cs)) := by
  apply run_collect
  intro sofar c hc
  have hne : c ≠ '<' := by
    rintro rfl
    exact h hc
  simp [step, hne]

theorem run_value {attr : List Char} (h : '"' ∉ cs) :
    run (.value tag attr []) cs = some ([], .value tag attr cs) := by
  apply run_collect
  intro sofar c hc
  have hne : c ≠ '"' := by
    rintro rfl
    exact h hc
  simp [step, hne]

/-- Reads a name, of which the first character sets the mode. -/
theorem run_name {collect : List Char → Mode} {name : String}
    (hstart : ∀ c, isTagChar c = true → step mode c = some ([], collect [c]))
    (hmore : ∀ sofar c, isTagChar c = true → step (collect sofar) c = some ([], collect (sofar ++ [c])))
    (hname : PlainName name) : run mode name.toList = some ([], collect name.toList) := by
  obtain ⟨hne, hchars⟩ := hname
  cases hname : name.toList with
  | nil => exact absurd hname hne
  | cons c cs =>
    rw [hname] at hchars
    obtain ⟨hc, hcs⟩ := List.forall_mem_cons.mp hchars
    have hrest : run (collect [c]) cs = some ([], collect ([c] ++ cs)) := by
      apply run_collect
      intro sofar d hd
      exact hmore sofar d (hcs d hd)
    exact run_cons (hstart c hc) hrest

theorem run_attribute {name : String} (hname : PlainName name) (value : String) :
    run (.blank tag) (name ++ "=\"" ++ escape value ++ "\"").toList =
      some ([], .part ⟨tag.name, tag.attributes ++ [(name.toList, (escape value).toList)]⟩) := by
  have hname : run (.blank tag) name.toList = some ([], .attrName tag name.toList) := by
    apply run_name _ _ hname
    · intro c hc
      simp [step, hc]
    · intro sofar c hc
      simp [step, hc]
  have hequals : run (.attrName tag name.toList) ['=', '"'] = some ([], .value tag name.toList []) := rfl
  have hvalue : run (.value tag name.toList []) (escape value).toList =
      some ([], .value tag name.toList (escape value).toList) := run_value (clean_escape value).quote
  have hquote : run (.value tag name.toList (escape value).toList) ['"'] =
      some ([], .part ⟨tag.name, tag.attributes ++ [(name.toList, (escape value).toList)]⟩) := rfl
  simp only [String.toList_append]
  exact run_append (run_append (run_append hname hequals) hvalue) hquote

/-- The mode after the name or an attribute of the tag. -/
def AtPart (tag : Tag) (mode : Mode) : Prop :=
  ∀ c, isTagChar c = false → step mode c = stepPart tag c

theorem run_attributes {attributes : List (String × String)}
    (hnames : ∀ name ∈ attributes.map Prod.fst, PlainName name) (hmode : AtPart tag mode) :
    ∃ last, AtPart ⟨tag.name, tag.attributes ++ (written "" attributes).attributes⟩ last ∧
      run mode (String.join (attributes.map fun (name, value) =>
        " " ++ name ++ "=\"" ++ escape value ++ "\"")).toList = some ([], last) := by
  induction attributes generalizing tag mode with
  | nil => exact ⟨mode, by simpa [written] using hmode, by simp [run]⟩
  | cons first attributes ih =>
    obtain ⟨name, value⟩ := first
    obtain ⟨hname, hnames⟩ := List.forall_mem_cons.mp hnames
    have hpart : ∀ tag, AtPart tag (.part tag) := fun tag c _ => rfl
    obtain ⟨last, hlast, hrun⟩ := ih hnames
      (hpart ⟨tag.name, tag.attributes ++ [(name.toList, (escape value).toList)]⟩)
    refine ⟨last, by simpa [written] using hlast, ?_⟩
    have hblank : step mode ' ' = some ([], .blank tag) := hmode ' ' rfl
    have hfirst := run_append (run_attribute hname value) hrun
    have hall := run_cons hblank hfirst
    simpa [String.toList_join, String.toList_append, List.append_assoc] using hall

theorem run_head {name : String} {attributes : List (String × String)} (h : PlainTag name attributes) :
    ∃ last, AtPart (written name attributes) last ∧
      run .bracket (head name attributes).toList = some ([], last) := by
  have hname : run .bracket name.toList = some ([], .name name.toList) := by
    apply run_name _ _ h.1
    · intro c hc
      simp [step, hc]
    · intro sofar c hc
      simp [step, hc]
  have hmode : AtPart ⟨name.toList, []⟩ (.name name.toList) := by
    intro c hc
    simp [step, hc]
  obtain ⟨last, hlast, hrun⟩ := run_attributes h.2 hmode
  refine ⟨last, hlast, ?_⟩
  rw [head, String.toList_append]
  exact run_append hname hrun

theorem run_opening {name : String} {attributes : List (String × String)}
    (h : PlainTag name attributes) (content : List Char) :
    run (.text content) ("<" ++ head name attributes ++ ">").toList =
      some ([.text content, .opening (written name attributes)], .text []) := by
  obtain ⟨last, hlast, hrun⟩ := run_head h
  have hend : run last ['>'] = some ([.opening (written name attributes)], .text []) :=
    run_cons (hlast '>' rfl) rfl
  have hstart : step (.text content) '<' = some ([.text content], .bracket) := rfl
  simp only [String.toList_append]
  exact run_cons hstart (run_append hrun hend)

theorem run_single {name : String} {attributes : List (String × String)}
    (h : PlainTag name attributes) (content : List Char) :
    run (.text content) ("<" ++ head name attributes ++ "/>").toList =
      some ([.text content, .single (written name attributes)], .text []) := by
  obtain ⟨last, hlast, hrun⟩ := run_head h
  have hend : run last ['/', '>'] = some ([.single (written name attributes)], .text []) :=
    run_cons (hlast '/' rfl) rfl
  have hstart : step (.text content) '<' = some ([.text content], .bracket) := rfl
  simp only [String.toList_append]
  exact run_cons hstart (run_append hrun hend)

theorem run_closing {name : String} (h : PlainName name) (content : List Char) :
    run (.text content) ("</" ++ name ++ ">").toList =
      some ([.text content, .closing name.toList], .text []) := by
  have hname : run (.endName []) name.toList = some ([], .endName name.toList) := by
    apply run_name _ _ h
    · intro c hc
      simp [step, hc]
    · intro sofar c hc
      simp [step, hc]
  have hstart : run (.text content) ['<', '/'] = some ([.text content], .endName []) := rfl
  simp only [String.toList_append]
  exact run_append (run_append hstart hname) rfl

end Run

/-- The characters of lines, each with its end. -/
def charsOf (lines : List String) : List Char :=
  lines.flatMap fun line => line.toList ++ ['\n']

theorem run_line {depth : Nat} {content : String} {found : List Token}
    (h : run (.text (indentation depth)) content.toList = some (found, .text [])) :
    run (.text ['\n']) (charsOf [line depth content]) = some (found, .text ['\n']) := by
  have hblanks : '<' ∉ List.replicate (2 * depth) ' ' := by simp [List.mem_replicate]
  have hline := run_append (run_append (run_text hblanks ['\n']) h)
    (show run (.text []) ['\n'] = some ([], .text ['\n']) from rfl)
  simpa [charsOf, line, String.toList_append] using hline

theorem charsOf_append (lines others : List String) :
    charsOf (lines ++ others) = charsOf lines ++ charsOf others :=
  List.flatMap_append

variable {leaf : String}

mutual

theorem run_lines : ∀ (depth : Nat) (xml : Xml), xml.Regular leaf →
    run (.text ['\n']) (charsOf (xml.lines depth)) = some (xml.tokens depth, .text ['\n'])
  | depth, empty tag attributes, h => run_line (run_single h (indentation depth))
  | depth, text tag attributes content, h => by
    apply run_line
    have hopening := run_opening h.1 (indentation depth)
    have hcontent := run_text (clean_escape content).less []
    have hall := run_append (run_append hopening hcontent) (run_closing h.1.1 _)
    simpa [tokens, String.toList_append, List.append_assoc] using hall
  | depth, node tag attributes children, h => by
    obtain ⟨htag, _, hchildren⟩ := h
    have hopening := run_line (run_opening htag (indentation depth))
    have hinner := run_linesOfAll (depth + 1) children hchildren
    have hclosing := run_line (run_closing htag.1 (indentation depth))
    have hall := run_append hopening (run_append hinner hclosing)
    rw [← charsOf_append, ← charsOf_append] at hall
    exact hall
termination_by structural _ xml => xml

theorem run_linesOfAll : ∀ (depth : Nat) (children : List Xml), RegularAll leaf children →
    run (.text ['\n']) (charsOf (linesOfAll depth children)) =
      some (tokensOfAll depth children, .text ['\n'])
  | _, [], _ => rfl
  | depth, child :: children, h => by
    rw [linesOfAll, tokensOfAll, charsOf_append]
    exact run_append (run_lines depth child h.1) (run_linesOfAll depth children h.2)
termination_by structural _ children => children

end

/-- The line in front of the elements. -/
def declaration : String :=
  "<?xml version=\"1.0\" encoding=\"UTF-8\"?>"

/-- Behind the declaration, the text of a tree is read as its tokens. -/
theorem scan_document {root : Xml} (h : root.Regular leaf) : ∃ rest,
    root.document.toList = declaration.toList ++ rest ∧
      scan rest = some (root.tokens 0 ++ [Token.text ['\n']]) := by
  refine ⟨'\n' :: charsOf (root.lines 0), ?_, ?_⟩
  · simp [document, declaration, charsOf, String.toList_join, List.flatMap_map]
  · have hfirst : step (.text []) '\n' = some ([], .text ['\n']) := rfl
    simp [scan, run_cons hfirst (run_lines 0 root h)]

/-! ### The tokens of a tree are well-formed -/

mutual

theorem track_tokens (stack : List (List Char)) : ∀ (depth : Nat) (xml : Xml),
    (xml.tokens depth).foldlM track stack = some stack
  | depth, empty tag attributes => rfl
  | depth, text tag attributes content => by
    simp [tokens, track, written]
  | depth, node tag attributes children => by
    have hinner := track_tokensOfAll (tag.toList :: stack) (depth + 1) children
    simp [tokens, track, written, hinner]
termination_by structural _ xml => xml

theorem track_tokensOfAll (stack : List (List Char)) : ∀ (depth : Nat) (children : List Xml),
    (tokensOfAll depth children).foldlM track stack = some stack
  | _, [] => rfl
  | depth, child :: children => by
    have hchild := track_tokens stack depth child
    have hchildren := track_tokensOfAll stack depth children
    simp [tokensOfAll, hchild, hchildren]
termination_by structural _ children => children

end

theorem clean_indentation (depth : Nat) : Clean (indentation depth) := by
  have hblanks : ∀ c ∈ indentation depth, c ∉ reserved := by
    intro c hc
    simp only [indentation, List.mem_cons, List.mem_replicate] at hc
    rcases hc with rfl | ⟨_, rfl⟩
    · decide
    · decide
  have hclean := clean_nil.append hblanks
  rwa [List.append_nil] at hclean

theorem clean_written (tag : String) (attributes : List (String × String)) :
    ∀ attr ∈ (written tag attributes).attributes, Clean attr.2 := by
  intro attr hattr
  simp only [written, List.mem_map] at hattr
  obtain ⟨⟨name, value⟩, _, rfl⟩ := hattr
  dsimp only
  exact clean_escape value

mutual

theorem clean_tokens : ∀ (depth : Nat) (xml : Xml), ∀ token ∈ xml.tokens depth, token.Clean
  | depth, empty tag attributes => by
    simp only [tokens, List.forall_mem_cons]
    exact ⟨clean_indentation depth, clean_written tag attributes, List.forall_mem_nil _⟩
  | depth, text tag attributes content => by
    simp only [tokens, List.forall_mem_cons]
    exact ⟨clean_indentation depth, clean_written tag attributes, clean_escape content, trivial,
      List.forall_mem_nil _⟩
  | depth, node tag attributes children => by
    simp only [tokens, List.forall_mem_cons, List.forall_mem_append]
    exact ⟨clean_indentation depth, clean_written tag attributes,
      clean_tokensOfAll (depth + 1) children, clean_indentation depth, trivial, List.forall_mem_nil _⟩
termination_by structural _ xml => xml

theorem clean_tokensOfAll : ∀ (depth : Nat) (children : List Xml),
    ∀ token ∈ tokensOfAll depth children, token.Clean
  | _, [] => List.forall_mem_nil _
  | depth, child :: children => by
    rw [tokensOfAll, List.forall_mem_append]
    exact ⟨clean_tokens depth child, clean_tokensOfAll depth children⟩
termination_by structural _ children => children

end

mutual

theorem textsOf_tokens (rest : List Token) : ∀ (depth : Nat) (xml : Xml), xml.Regular leaf →
    textsOf leaf.toList (xml.tokens depth ++ rest) =
      (xml.textsIn leaf).map (fun content => (escape content).toList) ++ textsOf leaf.toList rest
  | depth, empty tag attributes, _ => by
    simp [tokens, textsOf, textsIn]
  | depth, text tag attributes content, h => by
    simp [tokens, textsOf, textsIn, written, leadingText, h.2]
  | depth, node tag attributes children, h => by
    have hinner := textsOf_tokensOfAll
      (.text (indentation depth) :: .closing tag.toList :: rest) (depth + 1) children h.2.2
    have hname : tag.toList ≠ leaf.toList := mt String.toList_inj.mp h.2.1
    simp [tokens, textsOf, textsIn, written, hname, hinner]
termination_by structural _ xml => xml

theorem textsOf_tokensOfAll (rest : List Token) : ∀ (depth : Nat) (children : List Xml),
    RegularAll leaf children → textsOf leaf.toList (tokensOfAll depth children ++ rest) =
      (textsInAll leaf children).map (fun content => (escape content).toList) ++
        textsOf leaf.toList rest
  | _, [], _ => rfl
  | depth, child :: children, h => by
    rw [tokensOfAll, textsInAll, List.append_assoc, textsOf_tokens _ depth child h.1,
      textsOf_tokensOfAll rest depth children h.2, List.map_append, List.append_assoc]
termination_by structural _ children => children

end

/-! ### Documents -/

/-- A document with one element at the top: a declaration and then markup in which the tags of this element
stand around nested tags, and in which nothing but tags has the form of markup. -/
structure IsDocument (top : String) (text : String) (found : List Token) : Prop where
  scanned : ∃ rest, text.toList = declaration.toList ++ rest ∧ scan rest = some found ∧
    found.flatMap Token.chars = rest
  nested : ∃ attributes inner,
    found = [Token.text ['\n'], Token.opening ⟨top.toList, attributes⟩] ++ inner ++
      [Token.closing top.toList, Token.text ['\n']] ∧ Nested inner
  clean : ∀ token ∈ found, token.Clean

theorem isDocument_node {tag : String} {attributes : List (String × String)} {children : List Xml}
    (h : (node tag attributes children).Regular leaf) :
    IsDocument tag (node tag attributes children).document
      ((node tag attributes children).tokens 0 ++ [.text ['\n']]) := by
  obtain ⟨rest, htext, hscan⟩ := scan_document h
  refine ⟨⟨rest, htext, hscan, chars_of_scan hscan⟩, ?_, ?_⟩
  · refine ⟨(written tag attributes).attributes, tokensOfAll 1 children ++ [.text ['\n']], ?_, ?_⟩
    · simp [tokens, indentation, written]
    · simp [Nested, track, track_tokensOfAll]
  · rw [List.forall_mem_append]
    refine ⟨clean_tokens 0 _, ?_⟩
    rw [List.forall_mem_singleton]
    exact clean_indentation 0

end SchemaInfer.Xml
