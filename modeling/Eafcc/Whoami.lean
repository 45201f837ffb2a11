import Eafcc.Ffi
import Eafcc.Library.Utf8

namespace Eafcc.Ffi

open Eafcc.RuleEngine Eafcc.Storage

/-! # The tags of a client, read from a text -/

/-- `CStr::to_string_lossy`. -/
def toStringLossy (text : CText) : Str := Utf8.lossy text

/-- `str::split_once`: the parts around the first separator. -/
def splitOnce (separator : Char) : Str → Option (Str × Str)
  | [] => none
  | c :: rest =>
      if c = separator then some ([], rest)
      else (splitOnce separator rest).map fun parts => (c :: parts.1, parts.2)

/-- The body of the loop over the lines. -/
def insertPart (ret : MatchContext) (part : Str) : MatchContext :=
  match splitOnce '=' part with
  | some (k, v) => ret.insert (trim k) (.str (trim v))
  | none => ret

def newWhoami (val : CText) : MatchContext :=
  ((toStringLossy val).splitOn '\n').foldl insertPart ∅

theorem toStringLossy_utf8Bytes (text : Str) : toStringLossy (utf8Bytes text) = text := by
  rw [toStringLossy, utf8Bytes_eq, Utf8.lossy_utf8]

/-! ## Splitting and trimming -/

theorem splitOnce_eq_none {separator : Char} {text : Str} :
    splitOnce separator text = none ↔ separator ∉ text := by
  induction text with
  | nil => simp [splitOnce]
  | cons c rest ih =>
      by_cases here : c = separator
      · simp [splitOnce, here]
      · simp [splitOnce, here, ih, Ne.symm here]

theorem splitOnce_append {separator : Char} {left : Str} (right : Str) (first : separator ∉ left) :
    splitOnce separator (left ++ separator :: right) = some (left, right) := by
  induction left with
  | nil => simp [splitOnce]
  | cons c rest ih =>
      obtain ⟨here, later⟩ := not_or.mp (mt List.mem_cons.mpr first)
      simp [splitOnce, Ne.symm here, ih later]

theorem splitOnce_eq_some {separator : Char} {text left right : Str} :
    splitOnce separator text = some (left, right) ↔
      text = left ++ separator :: right ∧ separator ∉ left := by
  constructor
  · intro found
    have present : separator ∈ text := by
      by_contra absent
      rw [splitOnce_eq_none.mpr absent] at found
      cases found
    obtain ⟨start, rest, rfl, first⟩ := List.eq_append_cons_of_mem present
    rw [splitOnce_append rest first] at found
    cases found
    exact ⟨rfl, first⟩
  · intro parts
    obtain ⟨rfl, first⟩ := parts
    exact splitOnce_append right first

/-- White space of any amount around a text is trimmed with what the text has of its own. -/
theorem trim_pad {before after : Str} (text : Str) (leading : ∀ c ∈ before, isWhitespace c = true)
    (trailing : ∀ c ∈ after, isWhitespace c = true) : trim (before ++ (text ++ after)) = trim text := by
  rw [trim, List.dropWhile_append_of_pos leading, List.dropWhile_append]
  split
  · rename_i blank
    have empty : text.dropWhile isWhitespace = [] := by simpa using blank
    have rest : after.dropWhile isWhitespace = [] := List.dropWhile_eq_nil_iff.mpr trailing
    rw [trim, empty, rest]
  · have reversed : ∀ c ∈ after.reverse, isWhitespace c = true := by simpa using trailing
    rw [List.reverse_append, List.dropWhile_append_of_pos reversed]
    rfl

/-! ## The value of a key -/

/-- The line is one of the key and the value, with the text before its first `=` for the key
and all of the text after it for the value. -/
def Gives (line key value : Str) : Prop :=
  ∃ left right, line = left ++ '=' :: right ∧ '=' ∉ left ∧ trim left = key ∧ trim right = value

variable {ret : MatchContext} {line key value : Str} {lines : List Str}

theorem insertPart_gives (gives : Gives line key value) :
    (insertPart ret line).lookup key = some (.str value) := by
  obtain ⟨left, right, rfl, first, rfl, rfl⟩ := gives
  rw [insertPart, splitOnce_append right first]
  exact Finmap.lookup_insert ret

theorem insertPart_other (other : ∀ value, ¬ Gives line key value) :
    (insertPart ret line).lookup key = ret.lookup key := by
  unfold insertPart
  split
  · rename_i left right parts
    obtain ⟨rfl, first⟩ := splitOnce_eq_some.mp parts
    refine Finmap.lookup_insert_of_ne _ fun same => other (trim right) ?_
    exact ⟨left, right, rfl, first, same.symm, rfl⟩
  · rfl

theorem foldl_insertPart_other (others : ∀ line ∈ lines, ∀ value, ¬ Gives line key value) :
    (lines.foldl insertPart ret).lookup key = ret.lookup key := by
  induction lines generalizing ret with
  | nil => rfl
  | cons line lines ih =>
      obtain ⟨other, others⟩ := List.forall_mem_cons.mp others
      rw [List.foldl_cons, ih others, insertPart_other other]

theorem foldl_insertPart_last {before after : List Str} (gives : Gives line key value)
    (others : ∀ later ∈ after, ∀ other, ¬ Gives later key other) :
    ((before ++ line :: after).foldl insertPart ret).lookup key = some (.str value) := by
  rw [List.foldl_append, List.foldl_cons, foldl_insertPart_other others, insertPart_gives gives]

theorem foldl_insertPart_eq_none : (lines.foldl insertPart ∅).lookup key = none ↔
    ∀ line ∈ lines, ∀ value, ¬ Gives line key value := by
  induction lines using List.reverseRecOn with
  | nil => simp
  | append_singleton lines line ih =>
      rw [List.foldl_append, List.foldl_cons, List.foldl_nil]
      by_cases given : ∃ value, Gives line key value
      · obtain ⟨value, gives⟩ := given
        rw [insertPart_gives gives]
        simp only [reduceCtorEq, false_iff]
        exact fun others => others line (List.mem_append_right _ (List.mem_singleton_self _)) value gives
      · rw [insertPart_other (not_exists.mp given), ih, List.forall_mem_append,
          List.forall_mem_singleton]
        exact (and_iff_left (not_exists.mp given)).symm

/-! ## Texts that are written from a context -/

/-- Trimming leaves the text as it is, and it is within one line. -/
def Tidy (text : Str) : Prop := trim text = text ∧ '\n' ∉ text

/-- The context can be written. -/
def Plain (context : MatchContext) : Prop :=
  ∀ key value, context.lookup key = some (.str value) → Tidy key ∧ '=' ∉ key ∧ Tidy value

/-- An order of the entries of a context. -/
def InOrder (context : MatchContext) (order : List (Str × Str)) : Prop :=
  (order.map Prod.fst).Nodup ∧ ∀ key value, (key, value) ∈ order ↔ context.lookup key = some (.str value)

/-- White space within a line. -/
def Blank (text : Str) : Prop := ∀ c ∈ text, isWhitespace c = true ∧ c ≠ '\n'

/-- Lines with entries in their order, white space around their keys and values, and any
lines without a `=` among them. -/
inductive Written : List (Str × Str) → List Str → Prop
  | nil : Written [] []
  | entry {order lines} (key value : Str) {leading trailing leading' trailing' : Str} :
      Blank leading → Blank trailing → Blank leading' → Blank trailing' → Written order lines →
      Written ((key, value) :: order)
        ((leading ++ (key ++ trailing) ++ '=' :: (leading' ++ (value ++ trailing'))) :: lines)
  | other {order lines} (line : Str) : '=' ∉ line → '\n' ∉ line → Written order lines →
      Written order (line :: lines)

variable {context : MatchContext} {order : List (Str × Str)}

theorem trim_blank {leading trailing text : Str} (before : Blank leading) (after : Blank trailing)
    (tidy : Tidy text) : trim (leading ++ (text ++ trailing)) = text := by
  rw [trim_pad text (fun c member => (before c member).1) (fun c member => (after c member).1), tidy.1]

theorem Blank.notMem {text : Str} (blank : Blank text) {c : Char}
    (visible : isWhitespace c = false) : c ∉ text := by
  intro member
  rw [(blank c member).1] at visible
  cases visible

theorem Blank.newline_notMem {text : Str} (blank : Blank text) : '\n' ∉ text :=
  fun member => (blank _ member).2 rfl

/-- The entries of a list, later ones over earlier ones. -/
def ofEntries (order : List (Str × Str)) : MatchContext :=
  order.foldl (fun context entry => context.insert entry.1 (.str entry.2)) ∅

theorem ofEntries_snoc (key value : Str) :
    ofEntries (order ++ [(key, value)]) = (ofEntries order).insert key (.str value) := by
  simp [ofEntries]

theorem lookup_ofEntries (distinct : (order.map Prod.fst).Nodup) (key value : Str) :
    (ofEntries order).lookup key = some (.str value) ↔ (key, value) ∈ order := by
  induction order using List.reverseRecOn with
  | nil => simp [ofEntries]
  | append_singleton order last ih =>
      obtain ⟨other, given⟩ := last
      rw [List.map_append, List.map_singleton, List.nodup_append] at distinct
      obtain ⟨earlier, -, apart⟩ := distinct
      rw [ofEntries_snoc, List.mem_append, List.mem_singleton]
      by_cases same : key = other
      · subst same
        have fresh : (key, value) ∉ order := fun member =>
          apart key (List.mem_map_of_mem member) key (List.mem_singleton_self _) rfl
        simp [fresh, eq_comm]
      · rw [Finmap.lookup_insert_of_ne _ same, ih earlier]
        simp [same]

theorem InOrder.ofEntries_eq (inOrder : InOrder context order) : ofEntries order = context := by
  refine Finmap.ext_lookup fun key => Option.ext fun found => ?_
  cases found with
  | str value => exact (lookup_ofEntries inOrder.1 key value).trans (inOrder.2 key value)

theorem insertPart_entry {leading trailing leading' trailing' : Str} (keyTidy : Tidy key)
    (noSeparator : '=' ∉ key) (valueTidy : Tidy value) (beforeKey : Blank leading)
    (afterKey : Blank trailing) (beforeValue : Blank leading') (afterValue : Blank trailing') :
    insertPart ret (leading ++ (key ++ trailing) ++ '=' :: (leading' ++ (value ++ trailing'))) =
      ret.insert key (.str value) := by
  have first : '=' ∉ leading ++ (key ++ trailing) := by
    simp only [List.mem_append, not_or]
    exact ⟨beforeKey.notMem rfl, noSeparator, afterKey.notMem rfl⟩
  rw [insertPart, splitOnce_append _ first]
  simp only [trim_blank beforeKey afterKey keyTidy, trim_blank beforeValue afterValue valueTidy]

theorem Written.foldl_eq (written : Written order lines)
    (plain : ∀ entry ∈ order, Tidy entry.1 ∧ '=' ∉ entry.1 ∧ Tidy entry.2) (ret : MatchContext) :
    lines.foldl insertPart ret =
      order.foldl (fun context entry => context.insert entry.1 (.str entry.2)) ret := by
  induction written generalizing ret with
  | nil => rfl
  | entry key value beforeKey afterKey beforeValue afterValue _ ih =>
      obtain ⟨⟨keyTidy, noSeparator, valueTidy⟩, plain⟩ := List.forall_mem_cons.mp plain
      rw [List.foldl_cons, List.foldl_cons, ih plain, insertPart_entry keyTidy noSeparator valueTidy
        beforeKey afterKey beforeValue afterValue]
  | other line noSeparator _ _ ih =>
      rw [List.foldl_cons, insertPart, splitOnce_eq_none.mpr noSeparator]
      exact ih plain ret

theorem Written.newline_notMem (written : Written order lines)
    (plain : ∀ entry ∈ order, Tidy entry.1 ∧ Tidy entry.2) : ∀ line ∈ lines, '\n' ∉ line := by
  induction written with
  | nil => simp
  | entry key value beforeKey afterKey beforeValue afterValue _ ih =>
      obtain ⟨⟨keyTidy, valueTidy⟩, plain⟩ := List.forall_mem_cons.mp plain
      refine List.forall_mem_cons.mpr ⟨?_, ih plain⟩
      simp only [List.mem_append, List.mem_cons, not_or]
      exact ⟨⟨beforeKey.newline_notMem, keyTidy.2, afterKey.newline_notMem⟩, by decide,
        beforeValue.newline_notMem, valueTidy.2, afterValue.newline_notMem⟩
  | other line _ noNewline _ ih => exact List.forall_mem_cons.mpr ⟨noNewline, ih plain⟩

theorem splitOn_intercalate_foldl (within : ∀ line ∈ lines, '\n' ∉ line) :
    ((['\n'].intercalate lines).splitOn '\n').foldl insertPart ret = lines.foldl insertPart ret := by
  cases lines with
  | nil => rfl
  | cons line lines => rw [List.splitOn_intercalate _ within (List.cons_ne_nil _ _)]

/-- A context that is written in any order comes back, whatever white space is around the
texts and whatever lines without a `=` are in between. Of the lines of any text, the last one
with a key gives its value. -/
theorem newWhoami_written :
    (∀ context order lines, Plain context → InOrder context order → Written order lines →
      newWhoami (utf8Bytes (['\n'].intercalate lines)) = context) ∧
    ∀ val key,
      (∀ before line after value, (toStringLossy val).splitOn '\n' = before ++ line :: after →
        Gives line key value → (∀ later ∈ after, ∀ other, ¬ Gives later key other) →
        (newWhoami val).lookup key = some (.str value)) ∧
      ((newWhoami val).lookup key = none ↔
        ∀ line ∈ (toStringLossy val).splitOn '\n', ∀ value, ¬ Gives line key value) := by
  refine ⟨fun context order lines plain inOrder written => ?_, fun val key =>
    ⟨fun before line after value whole gives others => ?_, foldl_insertPart_eq_none⟩⟩
  · have entries : ∀ entry ∈ order, Tidy entry.1 ∧ '=' ∉ entry.1 ∧ Tidy entry.2 :=
      fun entry member => plain entry.1 entry.2 ((inOrder.2 entry.1 entry.2).mp member)
    have within : ∀ line ∈ lines, '\n' ∉ line := written.newline_notMem fun entry member =>
      ⟨(entries entry member).1, (entries entry member).2.2⟩
    rw [newWhoami, toStringLossy_utf8Bytes, splitOn_intercalate_foldl within,
      written.foldl_eq entries]
    exact inOrder.ofEntries_eq
  · rw [newWhoami, whole]
    exact foldl_insertPart_last gives others

/-- A value with a `=`, an empty key, and a line without an entry between them. -/
def sampleOrder : List (Str × Str) := [(['o', 's'], ['a', '=', 'b']), ([], ['c'])]

def sampleLines : List Str :=
  [[' ', 'o', 's', '\t', '=', ' ', 'a', '=', 'b'], ['o', 's'], ['=', 'c', '\r']]

theorem sampleOrder_written : Written sampleOrder sampleLines := by
  have none : Blank [] := by simp [Blank]
  have some : ∀ c, isWhitespace c = true → c ≠ '\n' → Blank [c] := by
    intro c blank within
    simpa [Blank] using ⟨blank, within⟩
  refine .entry _ _ (some ' ' rfl (by decide)) (some '\t' rfl (by decide)) (some ' ' rfl (by decide)) none ?_
  refine .other _ (by decide) (by decide) ?_
  exact .entry _ _ none none none (some '\r' rfl (by decide)) .nil

theorem newWhoami_written_sample :
    newWhoami (utf8Bytes (['\n'].intercalate sampleLines)) = ofEntries sampleOrder := by
  have distinct : (sampleOrder.map Prod.fst).Nodup := by decide
  have plain : ∀ entry ∈ sampleOrder,
      (trim entry.1 = entry.1 ∧ '\n' ∉ entry.1) ∧ '=' ∉ entry.1 ∧ trim entry.2 = entry.2 ∧ '\n' ∉ entry.2 := by
    decide
  exact newWhoami_written.1 (ofEntries sampleOrder) sampleOrder sampleLines
    (fun key value found => plain (key, value) ((lookup_ofEntries distinct key value).mp found))
    ⟨distinct, fun key value => (lookup_ofEntries distinct key value).symm⟩ sampleOrder_written

end Eafcc.Ffi
