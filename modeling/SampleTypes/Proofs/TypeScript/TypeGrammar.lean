import SampleTypes.Proofs.TypeScript.PropertyKeys
import SampleTypes.TypeScript.Expression

/-! The grammar of type expressions. `Reads` says which texts there are and what they say, and `Reader`
reads them character by character. The reader cannot but find the members that the grammar gives, so
no text says two things. -/

namespace SampleTypes.TypeScript

inductive Keyword where
  | number
  | string
  | boolean
  | null
  deriving DecidableEq, Repr

def Keyword.text : Keyword → String
  | .number => "number"
  | .string => "string"
  | .boolean => "boolean"
  | .null => "null"

inductive TypeTree where
  | keyword (k : Keyword)
  | name (name : String)
  | array (element : TypeTree)
  | union (members : List TypeTree)
  deriving Repr, Inhabited

namespace TypeTree

mutual

def same : TypeTree → TypeTree → Bool
  | .keyword j, .keyword k => j = k
  | .name m, .name n => m = n
  | .array t, .array u => t.same u
  | .union members, .union others => sameAll members others
  | _, _ => false

def sameAll : List TypeTree → List TypeTree → Bool
  | [], [] => true
  | t :: rest, u :: others => t.same u && sameAll rest others
  | _, _ => false

end

mutual

theorem same_self : (t : TypeTree) → t.same t = true
  | .keyword k => by simp [same]
  | .name n => by simp [same]
  | .array t => by rw [same, same_self t]
  | .union members => by rw [same, sameAll_self members]

theorem sameAll_self : (members : List TypeTree) → sameAll members members = true
  | [] => by rw [sameAll]
  | t :: rest => by rw [sameAll, same_self t, sameAll_self rest]; rfl

end

mutual

theorem eq_of_same : (t u : TypeTree) → t.same u = true → t = u
  | .keyword j, .keyword k, equal => by simpa [same] using equal
  | .name m, .name n, equal => by simpa [same] using equal
  | .array t, .array u, equal => by
    rw [same] at equal
    rw [eq_of_same t u equal]
  | .union members, .union others, equal => by
    rw [same] at equal
    rw [eq_of_sameAll members others equal]

theorem eq_of_sameAll : (members others : List TypeTree) → sameAll members others = true →
    members = others
  | [], [], _ => rfl
  | t :: rest, u :: others, equal => by
    rw [sameAll, Bool.and_eq_true] at equal
    rw [eq_of_same t u equal.1, eq_of_sameAll rest others equal.2]

end

instance : DecidableEq TypeTree := fun t u =>
  decidable_of_iff (t.same u = true) ⟨eq_of_same t u, fun equal => equal ▸ same_self t⟩

def ofMembers : List TypeTree → TypeTree
  | [t] => t
  | members => .union members

theorem ofMembers_singleton (t : TypeTree) : ofMembers [t] = t := rfl

theorem ofMembers_of_several {members : List TypeTree} (several : 2 ≤ members.length) :
    ofMembers members = .union members := by
  match members, several with
  | _ :: _ :: _, _ => rfl

end TypeTree

/-- The members of a text, between which it has bars. Brackets follow a text with a single member only,
since they bind tighter than bars, and so a union before them needs parentheses. -/
inductive Reads : List Char → List TypeTree → Prop
  | keyword (k : Keyword) : Reads k.text.toList [.keyword k]
  | name {n : String} (word : Identifier n.toList) (free : ∀ k : Keyword, n ≠ k.text) :
      Reads n.toList [.name n]
  | group {text : List Char} {members : List TypeTree} (inner : Reads text members) :
      Reads ('(' :: text ++ [')']) [.ofMembers members]
  | array {text : List Char} {t : TypeTree} (element : Reads text [t]) :
      Reads (text ++ ['[', ']']) [.array t]
  | bar {text rest : List Char} {members others : List TypeTree} (first : Reads text members)
      (second : Reads rest others) : Reads (text ++ separator.toList ++ rest) (members ++ others)

def Says (text : String) (t : TypeTree) : Prop :=
  ∃ members, Reads text.toList members ∧ TypeTree.ofMembers members = t

theorem Reads.single {text : List Char} {members : List TypeTree} (reads : Reads text members)
    (plain : ¬ separator.toList <:+: text) : ∃ t, members = [t] := by
  cases reads with
  | bar first second => exact absurd ⟨_, _, rfl⟩ plain
  | _ => exact ⟨_, rfl⟩

/-- The operand before the place where the reader stands: a word, which may go on, or all of it. -/
inductive Operand where
  | word (letters : List Char)
  | closed (t : TypeTree)
  deriving DecidableEq, Repr

inductive Progress where
  | before
  | after (operand : Operand)
  | bracket (t : TypeTree)
  | blank (t : TypeTree)
  | bar (t : TypeTree)
  deriving DecidableEq, Repr

/-- The members before each open parenthesis, those before the current operand, and what of that
has been read. -/
structure Reader where
  frames : List (List TypeTree)
  members : List TypeTree
  progress : Progress
  deriving DecidableEq, Repr

namespace Reader

def ofWord (letters : List Char) : TypeTree :=
  match [Keyword.number, .string, .boolean, .null].find? fun k => k.text.toList = letters with
  | some k => .keyword k
  | none => .name (String.ofList letters)

end Reader

def Operand.tree : Operand → TypeTree
  | .word letters => Reader.ofWord letters
  | .closed t => t

namespace Reader

def leave (frames : List (List TypeTree)) (members : List TypeTree) (t : TypeTree) :
    Char → Option Reader
  | '[' => some ⟨frames, members, .bracket t⟩
  | ' ' => some ⟨frames, members, .blank t⟩
  | ')' => match frames with
    | [] => none
    | outer :: frames => some ⟨frames, outer, .after (.closed (.ofMembers (members ++ [t])))⟩
  | _ => none

def step (r : Reader) (c : Char) : Option Reader :=
  match r.progress with
  | .before =>
    if c = '(' then some ⟨r.members :: r.frames, [], .before⟩
    else if isIdentifierStart c then some ⟨r.frames, r.members, .after (.word [c])⟩
    else none
  | .after (.word letters) =>
    if isIdentifierPart c then some ⟨r.frames, r.members, .after (.word (letters ++ [c]))⟩
    else leave r.frames r.members (ofWord letters) c
  | .after (.closed t) => leave r.frames r.members t c
  | .bracket t => if c = ']' then some ⟨r.frames, r.members, .after (.closed (.array t))⟩ else none
  | .blank t => if c = '|' then some ⟨r.frames, r.members, .bar t⟩ else none
  | .bar t => if c = ' ' then some ⟨r.frames, r.members ++ [t], .before⟩ else none

def run (r : Reader) (text : List Char) : Option Reader := text.foldlM step r

theorem run_append {r middle : Reader} {text rest : List Char} (first : r.run text = some middle) :
    r.run (text ++ rest) = middle.run rest := by
  rw [run, List.foldlM_append, ← run, first]
  rfl

theorem step_after {frames : List (List TypeTree)} {members : List TypeTree} (operand : Operand)
    {c : Char} (outside : isIdentifierPart c = false) :
    step ⟨frames, members, .after operand⟩ c = leave frames members operand.tree c := by
  cases operand with
  | word letters => exact if_neg (Bool.eq_false_iff.mp outside)
  | closed t => rfl

/-! Words. -/

theorem run_letters {frames : List (List TypeTree)} {members : List TypeTree} {rest : List Char}
    (parts : ∀ c ∈ rest, isIdentifierPart c = true) (letters : List Char) :
    run ⟨frames, members, .after (.word letters)⟩ rest =
      some ⟨frames, members, .after (.word (letters ++ rest))⟩ := by
  induction rest generalizing letters with
  | nil => rw [List.append_nil]; rfl
  | cons c rest ih =>
    rw [List.forall_mem_cons] at parts
    have more := ih parts.2 (letters ++ [c])
    rw [List.append_assoc, List.singleton_append] at more
    have first : step ⟨frames, members, .after (.word letters)⟩ c =
        some ⟨frames, members, .after (.word (letters ++ [c]))⟩ := if_pos parts.1
    rw [run, List.foldlM_cons, first]
    exact more

theorem run_word {frames : List (List TypeTree)} {members : List TypeTree} {letters : List Char}
    (word : Identifier letters) :
    run ⟨frames, members, .before⟩ letters = some ⟨frames, members, .after (.word letters)⟩ := by
  obtain ⟨c, rest, rfl, start, parts⟩ := word
  have opens : c ≠ '(' := by
    rintro rfl
    cases start
  have first : step ⟨frames, members, .before⟩ c = some ⟨frames, members, .after (.word [c])⟩ := by
    rw [step, if_neg opens, if_pos start]
  rw [run, List.foldlM_cons, first]
  exact run_letters parts [c]

theorem identifier_keyword (k : Keyword) : Identifier k.text.toList := by
  cases k <;> exact ⟨_, _, rfl, rfl, List.all_eq_true.mp rfl⟩

theorem ofWord_keyword (k : Keyword) : ofWord k.text.toList = .keyword k := by
  cases k <;> rfl

theorem ofWord_name {n : String} (free : ∀ k : Keyword, n ≠ k.text) : ofWord n.toList = .name n := by
  have none_fits : [Keyword.number, .string, .boolean, .null].find?
      (fun k => k.text.toList = n.toList) = none := by
    rw [List.find?_eq_none]
    intro k _ equal
    exact free k (String.toList_injective (of_decide_eq_true equal)).symm
  rw [ofWord, none_fits, String.ofList_toList]

/-! Whole texts. -/

/-- From wherever a text may begin, the reader finds its members and comes to its end. -/
theorem run_of_reads {text : List Char} {members : List TypeTree} (reads : Reads text members)
    (frames : List (List TypeTree)) (earlier : List TypeTree) :
    ∃ others operand, members = others ++ [operand.tree] ∧
      run ⟨frames, earlier, .before⟩ text = some ⟨frames, earlier ++ others, .after operand⟩ := by
  induction reads generalizing frames earlier with
  | keyword k =>
    refine ⟨[], .word k.text.toList, ?_, ?_⟩
    · rw [Operand.tree, ofWord_keyword]
      rfl
    · rw [List.append_nil]
      exact run_word (identifier_keyword k)
  | @name n word free =>
    refine ⟨[], .word n.toList, ?_, ?_⟩
    · rw [Operand.tree, ofWord_name free]
      rfl
    · rw [List.append_nil]
      exact run_word word
  | @group text members inner ih =>
    obtain ⟨others, operand, spelled, ran⟩ := ih (earlier :: frames) []
    refine ⟨[], .closed (.ofMembers members), rfl, ?_⟩
    have opened : run ⟨frames, earlier, .before⟩ ['('] = some ⟨earlier :: frames, [], .before⟩ := rfl
    have closed : run ⟨earlier :: frames, [] ++ others, .after operand⟩ [')'] =
        some ⟨frames, earlier, .after (.closed (.ofMembers (others ++ [operand.tree])))⟩ := by
      rw [run, List.foldlM_cons, step_after operand rfl]
      rfl
    rw [← List.singleton_append, List.append_assoc, run_append opened, run_append ran, closed, spelled,
      List.append_nil]
  | @array text t element ih =>
    obtain ⟨others, operand, spelled, ran⟩ := ih frames earlier
    -- Brackets follow a single member, which is then the operand.
    obtain ⟨rfl, rfl⟩ : others = [] ∧ operand.tree = t := by
      cases others with
      | nil => exact ⟨rfl, (List.cons.inj spelled).1.symm⟩
      | cons first rest => simp at spelled
    refine ⟨[], .closed (.array operand.tree), rfl, ?_⟩
    rw [run_append ran, run, List.foldlM_cons, step_after operand rfl]
    rfl
  | @bar text rest members others first second ih ih' =>
    obtain ⟨before, operand, spelled, ran⟩ := ih frames earlier
    obtain ⟨later, last, spelled', ran'⟩ := ih' frames (earlier ++ members)
    have between : run ⟨frames, earlier ++ before, .after operand⟩ separator.toList =
        some ⟨frames, earlier ++ members, .before⟩ := by
      rw [spelled, ← List.append_assoc]
      change ([' ', '|', ' '].foldlM step _ : Option Reader) = _
      rw [List.foldlM_cons, step_after operand rfl]
      rfl
    refine ⟨members ++ later, last, ?_, ?_⟩
    · rw [spelled', List.append_assoc]
    · rw [List.append_assoc, run_append ran, run_append between, ran', List.append_assoc]

end Reader

theorem Reads.unique {text : List Char} {members others : List TypeTree} (first : Reads text members)
    (second : Reads text others) : members = others := by
  obtain ⟨before, operand, spelled, ran⟩ := Reader.run_of_reads first [] []
  obtain ⟨before', operand', spelled', ran'⟩ := Reader.run_of_reads second [] []
  rw [ran] at ran'
  cases ran'
  rw [spelled, spelled']

theorem Says.unique {text : String} {t u : TypeTree} (first : Says text t) (second : Says text u) :
    t = u := by
  obtain ⟨members, reads, rfl⟩ := first
  obtain ⟨others, reads', rfl⟩ := second
  rw [reads.unique reads']

end SampleTypes.TypeScript
