import Mathlib.Data.List.Basic
import Orphans.Json.Reader

/-!
# The parser of JSON

`parse?_eq_some_iff`: the parser puts together exactly what `Json.tokens` takes apart.

Every state of the parser stands for the tokens that lead to it (`Parser.tokens`), and a step adds
the token that it reads (`Parser.tokens_step`). In the other direction the parser is run along a
value: it begins with a value to come and ends with the value, inside whatever frames
(`Parser.foldlM_step_tokens`). As no state takes two numbers, no value has two of them next to each
other.
-/

namespace Orphans.Json

/-! ### Tokens with a comma after each value -/

/-- The tokens of items with a comma after each. -/
def itemsBefore (items : List Json) : List Token :=
  items.flatMap fun item => item.tokens ++ [.comma]

/-- The tokens of members with a comma after each. -/
def membersBefore (members : List (Text × Json)) : List Token :=
  members.flatMap fun (key, value) => .text key :: .colon :: value.tokens ++ [.comma]

/-- The commas before items are the commas after the ones before, so the last item can be split off.
-/
theorem itemTokens_concat (items : List Json) (value : Json) :
    itemTokens (items ++ [value]) = .comma :: itemsBefore items ++ value.tokens := by
  induction items with
  | nil => simp [itemTokens, itemsBefore]
  | cons item items ih => simp [itemTokens, itemsBefore] at ih ⊢; simp [ih]

/-- The same is true of members. -/
theorem memberTokens_concat (members : List (Text × Json)) (key : Text) (value : Json) :
    memberTokens (members ++ [(key, value)]) =
      .comma :: membersBefore members ++ .text key :: .colon :: value.tokens := by
  induction members with
  | nil => simp [memberTokens, membersBefore]
  | cons m members ih => simp [memberTokens, membersBefore] at ih ⊢; simp [ih]

/-- The tokens of a list, told from its last item. -/
theorem tokens_list_concat (items : List Json) (value : Json) :
    (list (items ++ [value])).tokens =
      .openList :: itemsBefore items ++ value.tokens ++ [.closeList] := by
  cases items with
  | nil => simp [tokens, itemTokens, itemsBefore]
  | cons item items => simp [tokens, itemTokens_concat, itemsBefore]

/-- The tokens of a record, told from its last member. -/
theorem tokens_record_concat (members : List (Text × Json)) (key : Text) (value : Json) :
    (record (members ++ [(key, value)])).tokens =
      .openRecord :: membersBefore members ++ .text key :: .colon :: value.tokens ++
        [.closeRecord] := by
  cases members with
  | nil => simp [tokens, memberTokens, membersBefore]
  | cons m members => simp [tokens, memberTokens_concat, membersBefore]

/-! ### The parser -/

/-- The tokens of a frame up to the value inside it. -/
def Frame.tokens : Frame → List Token
  | .list items => .openList :: itemsBefore items
  | .record members key => .openRecord :: membersBefore members ++ [.text key, .colon]

namespace Parser

variable {parser parser' : Parser} {outer : List Frame} {token : Token}

/-- The tokens of frames, the outermost first. -/
def outerTokens (outer : List Frame) : List Token :=
  outer.reverse.flatMap Frame.tokens

/-- One more frame inside adds its tokens at the end. -/
@[simp] theorem outerTokens_cons (frame : Frame) (outer : List Frame) :
    outerTokens (frame :: outer) = outerTokens outer ++ frame.tokens := by
  simp [outerTokens]

/-- The tokens that have been read. -/
def tokens : Parser → List Token
  | .ready outer => outerTokens outer
  | .firstItem outer => outerTokens outer ++ [.openList]
  | .firstMember outer => outerTokens outer ++ [.openRecord]
  | .member members outer => outerTokens outer ++ .openRecord :: membersBefore members
  | .colon members key outer =>
    outerTokens outer ++ .openRecord :: membersBefore members ++ [.text key]
  | .closed value outer => outerTokens outer ++ value.tokens

/-- The first token of a value is read like any other. -/
theorem tokens_begin? (h : begin? outer token = some parser) :
    parser.tokens = outerTokens outer ++ [token] := by
  unfold begin? at h
  split at h <;> cases h <;> rfl

/-- A step reads one token: it is added to those that the state stands for, whichever state and
token there are. -/
theorem tokens_step (h : step parser token = some parser') :
    parser'.tokens = parser.tokens ++ [token] := by
  unfold step at h
  -- the cases are those of the step, in its order; the last of them is that of a token out of place
  split at h
  · exact tokens_begin? h
  · cases h
    simp [tokens, Json.tokens]
  · rw [tokens_begin? h, outerTokens_cons]
    rfl
  · cases h
    simp [tokens, Json.tokens]
  · cases h
    simp [tokens, membersBefore]
  · cases h
    simp [tokens]
  · cases h
    simp [tokens, Frame.tokens]
  · cases h
    simp [tokens, Frame.tokens, itemsBefore]
  · cases h
    simp [tokens, Frame.tokens, tokens_list_concat]
  · cases h
    simp [tokens, Frame.tokens, membersBefore]
  · cases h
    simp [tokens, Frame.tokens, tokens_record_concat]
  · cases h

/-- A run reads the tokens that it is given. -/
theorem tokens_foldlM_step {read : List Token} (h : read.foldlM step parser = some parser') :
    parser'.tokens = parser.tokens ++ read := by
  induction read generalizing parser with
  | nil =>
    cases h
    rw [List.append_nil]
  | cons token read ih =>
    rw [List.foldlM_cons] at h
    obtain ⟨next, hstep, hrest⟩ := Option.bind_eq_some_iff.mp h
    rw [ih hrest, tokens_step hstep, List.append_assoc]
    rfl

end Parser

/-- What is parsed are the tokens of the value that comes out. -/
theorem tokens_eq_of_parse? {read : List Token} {value : Json} (h : parse? read = some value) :
    read = value.tokens := by
  obtain ⟨parser, hrun, hfinish⟩ := Option.bind_eq_some_iff.mp h
  unfold Parser.finish? at hfinish
  split at hfinish
  · cases hfinish
    exact (Parser.tokens_foldlM_step hrun).symm
  · cases hfinish

namespace Parser

/-- After an opening bracket a value is read as in the middle of a list. -/
theorem foldlM_step_firstItem (value : Json) (outer : List Frame) :
    value.tokens.foldlM step (.firstItem outer) =
      value.tokens.foldlM step (.ready (.list [] :: outer)) := by
  match value with
  | text t => rfl
  | number n => rfl
  | list [] => simp [Json.tokens, step]
  | list (item :: items) => simp [Json.tokens, step]
  | record [] => simp [Json.tokens, step]
  | record ((key, value) :: members) => simp [Json.tokens, step]

mutual

/-- The tokens of a value lead from the state in which it is expected to the state in which it is
closed. This is proved together with the same for what comes after a first item or member. -/
theorem foldlM_step_tokens (value : Json) (outer : List Frame) :
    value.tokens.foldlM step (.ready outer) = some (.closed value outer) := by
  match value with
  | text t => rfl
  | number n => rfl
  | list [] => simp [Json.tokens, step, begin?]
  | list (item :: items) =>
    have first := foldlM_step_tokens item (.list [] :: outer)
    have rest := foldlM_step_itemTokens items item [] outer
    simpa [Json.tokens, step, begin?, foldlM_step_firstItem, first] using rest
  | record [] => simp [Json.tokens, step, begin?]
  | record ((key, value) :: members) =>
    have first := foldlM_step_tokens value (.record [] key :: outer)
    have rest := foldlM_step_memberTokens members key value [] outer
    simpa [Json.tokens, step, begin?, first] using rest

/-- The items after a value lead to the end of the list. -/
theorem foldlM_step_itemTokens (items : List Json) (value : Json) (before : List Json)
    (outer : List Frame) :
    (itemTokens items ++ [Token.closeList]).foldlM step (.closed value (.list before :: outer)) =
      some (.closed (.list (before ++ value :: items)) outer) := by
  match items with
  | [] => simp [itemTokens, step]
  | item :: items =>
    have first := foldlM_step_tokens item (.list (before ++ [value]) :: outer)
    have rest := foldlM_step_itemTokens items item (before ++ [value]) outer
    simpa [itemTokens, step, first] using rest

/-- The members after a value lead to the end of the record. -/
theorem foldlM_step_memberTokens (members : List (Text × Json)) (key : Text) (value : Json)
    (before : List (Text × Json)) (outer : List Frame) :
    (memberTokens members ++ [Token.closeRecord]).foldlM step
        (.closed value (.record before key :: outer)) =
      some (.closed (.record (before ++ (key, value) :: members)) outer) := by
  match members with
  | [] => simp [memberTokens, step]
  | (next, item) :: members =>
    have first := foldlM_step_tokens item (.record (before ++ [(key, value)]) next :: outer)
    have rest := foldlM_step_memberTokens members next item (before ++ [(key, value)]) outer
    simpa [memberTokens, step, first] using rest

end

end Parser

/-- The parser puts together what the tokens of a value take apart. -/
theorem parse?_eq_some_iff {read : List Token} {value : Json} :
    parse? read = some value ↔ read = value.tokens := by
  refine ⟨tokens_eq_of_parse?, ?_⟩
  rintro rfl
  unfold parse? Parser.start
  rw [Parser.foldlM_step_tokens]
  rfl

/-! ### Numbers are never neighbours -/

/-- At most one of two tokens is a number. -/
def Token.Apart (first second : Token) : Prop :=
  ∀ m n, ¬ (first = .number m ∧ second = .number n)

/-- After a number there is no step for a number. -/
theorem Parser.apart_of_step {parser parser' parser'' : Parser} {first second : Token}
    (h : step parser first = some parser') (h' : step parser' second = some parser'') :
    first.Apart second := by
  rintro m n ⟨rfl, rfl⟩
  have closed : ∃ outer, parser' = .closed (.number m) outer := by
    unfold step at h
    split at h <;> first | contradiction | (cases h; exact ⟨_, rfl⟩)
  -- whatever is around the number, a comma or a closing bracket comes next
  obtain ⟨outer, rfl⟩ := closed
  rcases outer with _ | ⟨_ | _, outer⟩ <;> contradiction

/-- So no two tokens of a run are numbers next to each other. -/
theorem Parser.isChain_apart {parser parser' : Parser} {read : List Token}
    (h : read.foldlM step parser = some parser') : read.IsChain Token.Apart := by
  induction read generalizing parser with
  | nil => exact .nil
  | cons first read ih =>
    rw [List.foldlM_cons] at h
    obtain ⟨next, hfirst, hrest⟩ := Option.bind_eq_some_iff.mp h
    cases read with
    | nil => exact .singleton first
    | cons second read =>
      have apart : first.Apart second := by
        rw [List.foldlM_cons] at hrest
        obtain ⟨_, hsecond, -⟩ := Option.bind_eq_some_iff.mp hrest
        exact apart_of_step hfirst hsecond
      exact .cons_cons apart (ih hrest)

/-- Every value can be parsed, so its tokens are such a run. -/
theorem isChain_apart_tokens (value : Json) : value.tokens.IsChain Token.Apart :=
  Parser.isChain_apart (Parser.foldlM_step_tokens value [])

end Orphans.Json
