import LetStack.Proofs.Analysis.Lasting
import LetStack.Proofs.Scoping.Declared
import LetStack.Proofs.Session.Results
import LetStack.Proofs.Source.Acceptance
import LetStack.Proofs.Text.Lines
import LetStack.Proofs.Text.RoundTrip

/-!
What a session lists is one line for each name and for each entry of the heap. Names come from
programs that were parsed, so that no name breaks its line, and a value is described on one line
whatever it holds.
-/

namespace LetStack

/-! Names that programs introduce -/

theorem mem_bindingsOfAll {parts : List Expr} {binding : Binding}
    (member : binding ∈ Expr.bindingsOfAll parts) : ∃ part ∈ parts, binding ∈ part.bindings := by
  induction parts with
  | nil => simp [Expr.bindingsOfAll] at member
  | cons first rest ih =>
      rcases List.mem_append.1 member with later | here
      · obtain ⟨part, inRest, inPart⟩ := ih later
        exact ⟨part, List.mem_cons_of_mem _ inRest, inPart⟩
      · exact ⟨first, List.mem_cons_self, here⟩

theorem Expr.Printable.isName_of_mem {expr : Expr} (printable : expr.Printable)
    {binding : Binding} (member : binding ∈ expr.bindings) :
    isName binding.name.toList = true := by
  induction printable with
  | literal _ => simp [Expr.bindings] at member
  | identifier _ => simp [Expr.bindings] at member
  | declare kind named _ _ ih =>
      rcases List.mem_cons.1 member with rfl | inside
      · exact named
      · exact ih inside
  | assign named _ _ _ ih =>
      rcases List.mem_cons.1 member with rfl | inside
      · exact named
      · exact ih inside
  | binary _ _ _ _ _ ihLeft ihRight =>
      rcases List.mem_append.1 member with inRight | inLeft
      · exact ihRight inRight
      · exact ihLeft inLeft
  | function _ _ _ _ => simp [Expr.bindings] at member
  | call _ _ _ ih =>
      obtain ⟨arg, inArgs, inArg⟩ := mem_bindingsOfAll member
      exact ih arg inArgs inArg

namespace Session

variable {session after : Session} {source : String} {outcome : Outcome}

def NamesValid (session : Session) : Prop :=
  ∀ name ∈ session.scope.symbols.names, isName name.toList = true

theorem Gives.namesValid (gives : session.Gives source outcome after)
    (valid : session.NamesValid) : after.NamesValid := by
  by_cases plain : stripBlank source = envCommand
  · obtain ⟨_, rfl⟩ := (gives_of_asked plain).1 gives
    exact valid
  · cases parsed : parse source with
    | error error =>
        obtain ⟨_, rfl⟩ := (gives_of_error plain parsed).1 gives
        exact valid
    | ok program =>
        have submits := (gives_of_ok plain parsed).1 gives
        by_cases clean : (Expr.checkAll program session.scope).2.isClean = true
        · obtain ⟨_, _, last, _, _, rfl⟩ := (submits_of_clean clean).1 submits
          intro name declared
          have entries := checkAll_entries program (fun part _ => check_entries part) session.scope
            (List.isEmpty_iff.1 clean)
          rw [Table.names, entries, List.map_append, List.mem_append] at declared
          rcases declared with earlier | introduced
          · exact valid name earlier
          · obtain ⟨binding, member, rfl, _⟩ := mem_introduced_iff.1 introduced
            obtain ⟨part, inProgram, inPart⟩ := mem_bindingsOfAll member
            exact ((parse_accounts parsed).1.2 part inProgram).isName_of_mem inPart
        · obtain ⟨_, rfl⟩ := (submits_of_unclean clean).1 submits
          exact valid

theorem Runs.namesValid {sources : List String} {outcomes : List Outcome}
    (runs : session.Runs sources outcomes after) (valid : session.NamesValid) :
    after.NamesValid := by
  induction runs with
  | nil _ => exact valid
  | cons gives _ ih => exact ih (gives.namesValid valid)

end Session

/-! The lines of a listing -/

structure Listed where
  name : String
  address : Nat
  value : Value

namespace Listed

def entry (listed : Listed) : String × Int := (listed.name, listed.address)

def line (listed : Listed) : String :=
  "  " ++ listed.name ++ " -> #" ++ listed.address.repr ++ " " ++ listed.value.describe

end Listed

def heapLine (address : Nat) (value : Value) : String :=
  "  #" ++ address.repr ++ " " ++ value.describe

theorem newline_not_mem_heapLine (address : Nat) (value : Value) :
    '\n' ∉ (heapLine address value).toList := by
  simp [heapLine, newline_not_mem_toDigits, newline_not_mem_describe]

theorem not_mem_of_isName {word : List Char} (valid : isName word = true) {char : Char}
    (other : isNameChar char = false) : char ∉ word := by
  obtain ⟨first, rest, rfl, letter, others⟩ := isName_shape valid
  intro member
  rcases List.mem_cons.1 member with rfl | later
  · rw [isNameChar_of_isLetter letter] at other
    cases other
  · rw [List.all_eq_true.1 others _ later] at other
    cases other

theorem Listed.newline_not_mem_line (listed : Listed) (valid : isName listed.name.toList = true) :
    '\n' ∉ listed.line.toList := by
  have name : '\n' ∉ listed.name.toList := not_mem_of_isName valid rfl
  simp [line, name, newline_not_mem_toDigits, newline_not_mem_describe]

def listingLines (table : List Listed) (heap : List Value) : List String :=
  "symbols:" :: table.map Listed.line ++ "heap:" :: heap.mapIdx heapLine

theorem newline_not_mem_listingLines {table : List Listed} (heap : List Value)
    (valid : ∀ listed ∈ table, isName listed.name.toList = true) :
    ∀ line ∈ listingLines table heap, '\n' ∉ line.toList := by
  intro line member
  simp only [listingLines, List.mem_append, List.mem_cons, List.mem_map, List.mem_mapIdx] at member
  rcases member with (rfl | ⟨listed, member, rfl⟩) | rfl | ⟨index, bound, rfl⟩
  · decide
  · exact listed.newline_not_mem_line (valid listed member)
  · decide
  · exact newline_not_mem_heapLine index heap[index]

namespace Environment

variable {env : Environment}

theorem symbolLines_listed (entries : List (String × Int))
    (inside : ∀ entry ∈ entries, ∃ place : Nat, entry.2 = place ∧ place < env.heap.length) :
    ∃ table : List Listed, table.map Listed.entry = entries ∧
      (∀ listed ∈ table, env.heap[listed.address]? = some listed.value) ∧
      env.symbolLines entries = .ok (table.map fun listed => listed.line ++ "\n") := by
  induction entries with
  | nil => exact ⟨[], rfl, nofun, rfl⟩
  | cons first rest ih =>
      obtain ⟨table, same, loaded, shown⟩ :=
        ih fun entry member => inside entry (List.mem_cons_of_mem _ member)
      obtain ⟨place, here, bound⟩ := inside first List.mem_cons_self
      obtain ⟨name, address⟩ := first
      obtain rfl : address = place := here
      have found : env.load? place = some env.heap[place] := by
        rw [load?_natCast, List.getElem?_eq_getElem bound]
      refine ⟨⟨name, place, env.heap[place]⟩ :: table, congrArg (_ :: ·) same, ?_, ?_⟩
      · exact List.forall_mem_cons.2 ⟨List.getElem?_eq_getElem bound, loaded⟩
      · simp only [symbolLines, found, shown, Except.map]
        rfl

theorem heapLines_eq (values : List Value) : ∀ start : Nat, heapLines start values =
    (values.mapIdx fun index value => heapLine (start + index) value).map (· ++ "\n") := by
  induction values with
  | nil => exact fun _ => rfl
  | cons value rest ih =>
      intro start
      rw [heapLines, ih, List.mapIdx_cons]
      simp only [heapLine, Nat.add_zero, Nat.add_assoc, Nat.add_comm 1, List.map_cons]

theorem nameBefore_iff {first second : String × Int} :
    nameBefore first second = true ↔ first.1 ≤ second.1 := by
  simp only [nameBefore, Bool.not_eq_true', decide_eq_false_iff_not, String.not_lt]

theorem pairwise_names_mergeSort (env : Environment) :
    (env.symbols.entries.mergeSort nameBefore).Pairwise (fun first second => first.1 < second.1) := by
  have transitive : ∀ first second third, nameBefore first second = true →
      nameBefore second third = true → nameBefore first third = true := by
    intro first second third before further
    rw [nameBefore_iff] at before further ⊢
    exact String.le_trans before further
  have total : ∀ first second,
      (nameBefore first second || nameBefore second first) = true := by
    intro first second
    rw [Bool.or_eq_true, nameBefore_iff, nameBefore_iff]
    exact String.le_total first.1 second.1
  have inOrder := List.pairwise_mergeSort transitive total env.symbols.entries
  have distinct : ((env.symbols.entries.mergeSort nameBefore).map Prod.fst).Nodup :=
    ((List.mergeSort_perm _ _).map Prod.fst).nodup_iff.2 env.symbols.distinct
  refine (inOrder.and (List.pairwise_map.1 distinct)).imp ?_
  intro first second both
  have notAfter := nameBefore_iff.1 both.1
  exact String.not_le.1 fun atMost => both.2 (String.le_antisymm notAfter atMost)

theorem Sound.listing_eq {rule : Rule} (sound : env.Sound rule) :
    ∃ table : List Listed, table.map Listed.entry = env.symbols.entries.mergeSort nameBefore ∧
      (∀ listed ∈ table, env.heap[listed.address]? = some listed.value) ∧
      env.listing = .ok (String.join ((listingLines table env.heap).map (· ++ "\n"))) := by
  obtain ⟨table, same, loaded, shown⟩ := env.symbolLines_listed
    (env.symbols.entries.mergeSort nameBefore) fun entry member => sound.symbols entry.1 entry.2
      (Table.lookup_of_mem _ env.symbols.distinct entry (List.mem_mergeSort.1 member))
  refine ⟨table, same, loaded, ?_⟩
  have heap : heapLines 0 env.heap = (env.heap.mapIdx heapLine).map (· ++ "\n") := by
    simp only [heapLines_eq, Nat.zero_add]
  rw [listing, shown, heap]
  simp [listingLines, Function.comp_def, Bind.bind, Except.bind]

end Environment

/-! Reading a listing -/

def readEntry (line : List Char) : String × Nat :=
  let name := (line.drop 2).takeWhile (· ≠ ' ')
  (String.ofList name, digitsValue ((line.drop (name.length + 7)).takeWhile isDigit))

def readListing (text : String) : List (String × Nat) × Nat :=
  let lines := (text.toList.splitOn '\n').drop 1
  let isEntry := fun line : List Char => decide (line ≠ "heap:".toList)
  ((lines.takeWhile isEntry).map readEntry, (lines.dropWhile isEntry).length - 2)

theorem readEntry_line {listed : Listed} (valid : isName listed.name.toList = true) :
    readEntry listed.line.toList = (listed.name, listed.address) := by
  let shown := listed.address.repr.toList ++ ' ' :: listed.value.describe.toList
  have shape : listed.line.toList = ' ' :: ' ' :: (listed.name.toList ++ " -> #".toList ++ shown) := by
    simp [Listed.line, shown]
  have blank : ' ' ∉ listed.name.toList := not_mem_of_isName valid rfl
  have name : (listed.line.toList.drop 2).takeWhile (· ≠ ' ') = listed.name.toList := by
    rw [shape, List.append_assoc]
    refine (span_append (List.all_eq_true.2 fun char member => ?_) ?_).1
    · simpa using fun same : char = ' ' => blank (same ▸ member)
    · rintro char ⟨⟩
      rfl
  have rest : listed.line.toList.drop (listed.name.toList.length + 7) = shown := by
    rw [shape, List.drop_succ_cons, List.drop_succ_cons]
    exact List.drop_left' (by simp)
  have digits : shown.takeWhile isDigit = Nat.toDigits 10 listed.address := by
    rw [← Nat.toList_repr]
    refine (span_append (Nat.toList_repr ▸ all_isDigit_toDigits listed.address) ?_).1
    rintro char ⟨⟩
    rfl
  rw [readEntry, name, rest, digits, digitsValue_toDigits, String.ofList_toList]

theorem readListing_of_lines {table : List Listed} {heap : List Value} {text : String}
    (valid : ∀ listed ∈ table, isName listed.name.toList = true)
    (lines : text.toList.splitOn '\n' = (listingLines table heap ++ [""]).map String.toList) :
    readListing text = (table.map fun listed => (listed.name, listed.address), heap.length) := by
  have indented : ∀ line ∈ (table.map Listed.line).map String.toList, line ≠ "heap:".toList := by
    simp only [List.map_map, List.forall_mem_map]
    intro listed _ same
    simp [Listed.line] at same
  have entries : ((table.map Listed.line).map String.toList).map readEntry =
      table.map fun listed => (listed.name, listed.address) := by
    rw [List.map_map, List.map_map]
    exact List.map_congr_left fun listed member => readEntry_line (valid listed member)
  have parts : (text.toList.splitOn '\n').drop 1 = (table.map Listed.line).map String.toList ++
      "heap:".toList :: (heap.mapIdx heapLine ++ [""]).map String.toList := by
    rw [lines]
    simp [listingLines]
  rw [readListing, parts, List.takeWhile_append_of_pos (by simpa using indented),
    List.dropWhile_append_of_pos (by simpa using indented)]
  simp [← entries]

/-- After any texts, the session can be listed: one line for each name, in alphabetical order, and one
for each entry of the heap. What is bound where can be read back from the listing. -/
theorem listing_has_a_line_for_each (session : Session) (sources : List String)
    (outcomes : List Outcome) (runs : Session.empty.Runs sources outcomes session) :
    ∃ (text : String) (table : List Listed), session.env.listing = .ok text ∧
      (table.map Listed.entry).Perm session.env.symbols.entries ∧
      table.Pairwise (fun first second => first.name < second.name) ∧
      (∀ listed ∈ table, session.env.heap[listed.address]? = some listed.value) ∧
      text.toList.splitOn '\n' = ("symbols:" :: table.map Listed.line ++
        "heap:" :: session.env.heap.mapIdx heapLine ++ [""]).map String.toList ∧
      readListing text =
        (table.map fun listed => (listed.name, listed.address), session.env.heap.length) := by
  have reached := runs.reached .empty
  have sound : session.Sound False := reached.sound nofun
  obtain ⟨table, same, loaded, shown⟩ := sound.env.listing_eq
  have perm : (table.map Listed.entry).Perm session.env.symbols.entries :=
    same ▸ List.mergeSort_perm _ _
  have valid : ∀ listed ∈ table, isName listed.name.toList = true := by
    intro listed member
    have bound := (perm.map Prod.fst).subset
      (List.mem_map_of_mem (List.mem_map_of_mem (f := Listed.entry) member))
    exact runs.namesValid nofun listed.name (reached.names_subset bound)
  have lines := splitOn_join_lines (newline_not_mem_listingLines session.env.heap valid)
  refine ⟨_, table, shown, perm, ?_, loaded, lines, readListing_of_lines valid lines⟩
  have inOrder := session.env.pairwise_names_mergeSort
  rw [← same] at inOrder
  have byName := List.pairwise_map.1 inOrder
  exact byName

/-- A text that holds a quote and a line of a listing, and a name that comes before the first. -/
def namesBackward : List Expr :=
  [.declare .variable "z" (.literal (.text "it's\n  #9")), .declare .variable "a" (.literal (.int 1))]

theorem parse_namesBackward : parse "let z=\"it's\n  #9\";let a=1" = .ok namesBackward := by
  have writes := Writes.statements
    (.declare .variable "z" (.value (.term (.factor (.text "it's\n  #9")))))
    (.last (.declare .variable "a" (.value (.term (.factor (.int ['1']))))))
  have closed : '"' ∉ "it's\n  #9".toList := by decide
  have spells : Spells _ "let z=\"it's\n  #9\";let a=1".toList :=
    .token [] (.keyword (.declare .variable)) rfl trivial <| .token [' '] (.name "z") rfl rfl <|
    .token [] .equals rfl trivial <| .token [] (.text "it's\n  #9") rfl closed <|
    .token [] .semicolon rfl trivial <| .token [] (.keyword (.declare .variable)) rfl trivial <|
    .token [' '] (.name "a") rfl rfl <| .token [] .equals rfl trivial <|
    .token [] (.int ['1']) rfl ⟨nofun, rfl⟩ <| .blank rfl
  have text : (Literal.text "it's\n  #9").Printable := by decide
  have one : (Literal.int 1).Printable := by decide
  have printable : Printable namesBackward := ⟨List.cons_ne_nil _ _, List.forall_mem_cons.2
    ⟨.declare .variable rfl (.literal text) rfl, List.forall_mem_singleton.2
      (.declare .variable rfl (.literal one) rfl)⟩⟩
  exact parse_of_fitting printable writes spells rfl

theorem listing_has_a_line_for_each_backward : ∃ session text,
    Session.empty.Runs ["let z=\"it's\n  #9\";let a=1"] [.success .nothing []] session ∧
    session.env.listing = .ok text ∧
    text.toList.splitOn '\n' = ["symbols:", "  a -> #2 1", "  z -> #1 <pointer 0>", "heap:",
      "  #0 \"it's\\n  #9\"", "  #1 <pointer 0>", "  #2 1", ""].map String.toList ∧
    readListing text = ([("a", 2), ("z", 1)], 3) := by
  have plain : stripBlank "let z=\"it's\n  #9\";let a=1" ≠ Session.envCommand := by decide
  obtain ⟨session, gives, heap, symbols⟩ : ∃ session,
      Session.empty.Gives "let z=\"it's\n  #9\";let a=1" (.success .nothing []) session ∧
      session.env.heap = [.bytes (encodeUtf8 "it's\n  #9".toList), .pointer 0, .int 1] ∧
      session.env.symbols.entries = [("z", 1), ("a", 2)] :=
    ⟨_, (Session.gives_of_ok plain parse_namesBackward).2 ⟨2, _, rfl, rfl, rfl⟩, rfl, rfl⟩
  have runs := Session.Runs.cons gives (.nil _)
  obtain ⟨text, table, shown, perm, inOrder, loaded, lines, read⟩ :=
    listing_has_a_line_for_each _ _ _ runs
  rw [symbols] at perm
  rw [heap] at loaded lines read
  have names : table.map Listed.entry = [("a", 2), ("z", 1)] := by
    have forward : [("a", (2 : Int)), ("z", 1)].Pairwise (fun first second => first.1 < second.1) := by
      decide
    refine List.Perm.eq_of_pairwise ?_ (List.pairwise_map.2 inOrder) forward (perm.trans (.swap _ _ _))
    intro first second _ _ before after
    exact absurd (String.lt_trans before after) (String.lt_irrefl _)
  obtain ⟨⟨_, place, one⟩, others, rfl, ⟨⟩, last⟩ := List.map_eq_cons_iff.1 names
  obtain ⟨⟨_, other, pointer⟩, _, rfl, ⟨⟩, ended⟩ := List.map_eq_cons_iff.1 last
  obtain rfl := List.map_eq_nil_iff.1 ended
  have ofA := loaded _ List.mem_cons_self
  have ofZ := loaded _ (List.mem_cons_of_mem _ List.mem_cons_self)
  cases ofA
  cases ofZ
  have described : (Value.bytes (encodeUtf8 "it's\n  #9".toList)).describe = "\"it's\\n  #9\"" := by
    rw [Value.describe, decodeUtf8_encodeUtf8]
    decide +kernel
  refine ⟨session, text, runs, shown, lines.trans ?_, read⟩
  simp only [List.mapIdx_cons, heapLine, described]
  decide

end LetStack
