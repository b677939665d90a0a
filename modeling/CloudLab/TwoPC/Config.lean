import CloudLab.Library.Checked
import CloudLab.TwoPC.Message

/-! The configuration file: `parseConfigFile`, and the loop of `main` over its result. -/

namespace CloudLab.TwoPC
open Checked Text

def modeName : Str := "mode".toList
def coordinator_info : Str := "coordinator_info".toList
def participant_info : Str := "participant_info".toList

def parseConfigLine (str : Str) : Except Stop (Option (List Str)) :=
  if str = [] ∨ str.head? = some '!' then .ok none
  else do
    let split_str := cutStringBySpace str
    let name ← index split_str 0
    if name = coordinator_info ∨ name = participant_info then
      let value ← index split_str 1
      if ':' ∈ value then .ok (some (split_str.set 1 (upTo ':' value) ++ [behind ':' value]))
      else .ok (some split_str)
    else .ok (some split_str)

/-- The contents of the file, or none when it cannot be opened. -/
def parseConfigFile (file : Option Str) : Except Stop (List (List Str)) :=
  match file with
  | none => .ok []
  | some text => keep parseConfigLine (getlines text)

structure Addr where
  ip : Str
  port : Int
  vaild : Bool
  deriving DecidableEq

/-- The variables of `main`; `coordinatorPort` is not initialised. -/
structure Settings where
  mode : Int
  coordinatorIp : Str
  coordinatorPort : Option Int
  partiAddr : List Addr
  deriving DecidableEq

def readSplit (s : Settings) (split_str : List Str) : Except Stop Settings := do
  let name ← index split_str 0
  if name = modeName then
    let value ← index split_str 1
    .ok (if value = "coordinator".toList then { s with mode := 0 }
      else if value = "participant".toList then { s with mode := 1 } else s)
  else if name = coordinator_info then
    let ip ← index split_str 1
    let port ← (index split_str 2).bind integer
    .ok { s with coordinatorIp := ip, coordinatorPort := some port }
  else if name = participant_info then
    let ip ← index split_str 1
    let port ← (index split_str 2).bind integer
    .ok { s with partiAddr := s.partiAddr ++ [⟨ip, port, true⟩] }
  else .ok s

def main (file : Option Str) : Except Stop Settings := do
  let configFileData ← parseConfigFile file
  configFileData.foldlM readSplit ⟨-1, [], none, []⟩

/-! The kinds of lines. -/

def Parameter (line : Str) : Prop := line ≠ [] ∧ line.head? ≠ some '!'

def Info (name : Str) : Prop := name = coordinator_info ∨ name = participant_info

def Unreadable (line : Str) : Prop :=
  Parameter line ∧ (words line = [] ∨ ∃ name, Info name ∧ words line = [name])

def Lacking (line : Str) : Prop :=
  Parameter line ∧ (words line = [modeName] ∨ ∃ name value, Info name ∧ words line = [name, value] ∧ ':' ∉ value)

/-- What is taken for the port: the third word, and what is behind the colon when there is none. -/
def portField (value : Str) (rest : List Str) : Option Str :=
  rest.head?.or (if ':' ∈ value then some (behind ':' value) else none)

def PortRefused (line : Str) : Prop :=
  Parameter line ∧ ∃ name value rest field, Info name ∧ words line = name :: value :: rest ∧
    portField value rest = some field ∧ stoi field = none

def Colonless (line : Str) : Prop :=
  Parameter line ∧ ∃ name value rest, Info name ∧ words line = name :: value :: rest ∧ ':' ∉ value

section lines
variable {line name value : Str} {rest : List Str} {e : Stop}

theorem parseConfigLine_skipped (skipped : ¬ Parameter line) : parseConfigLine line = .ok none := by
  refine if_pos ?_
  by_contra neither
  exact skipped (not_or.mp neither)

theorem cutStringBySpace_eq (str : Str) : cutStringBySpace str = words str := by
  rw [cutStringBySpace]
  split
  · next empty => rw [empty, words_nil]
  · rfl

theorem parseConfigLine_other (parameter : Parameter line) (shape : words line = name :: rest) (other : ¬ Info name) :
    parseConfigLine line = .ok (some (name :: rest)) := by
  have taken : ¬ (line = [] ∨ line.head? = some '!') := not_or.mpr parameter
  have other' : ¬ (name = coordinator_info ∨ name = participant_info) := other
  rw [parseConfigLine, if_neg taken, cutStringBySpace_eq, shape]
  exact if_neg other'

theorem parseConfigLine_info (parameter : Parameter line) (shape : words line = name :: value :: rest)
    (info : Info name) :
    ∃ ip fields, parseConfigLine line = .ok (some (name :: ip :: fields)) ∧ fields.head? = portField value rest := by
  have taken : ¬ (line = [] ∨ line.head? = some '!') := not_or.mpr parameter
  have info' : name = coordinator_info ∨ name = participant_info := info
  rw [parseConfigLine, if_neg taken, cutStringBySpace_eq, shape]
  by_cases colon : ':' ∈ value
  · refine ⟨upTo ':' value, rest ++ [behind ':' value], ?_, ?_⟩
    · exact (if_pos info').trans (if_pos colon)
    · rw [portField, if_pos colon]
      cases rest <;> rfl
  · refine ⟨value, rest, (if_pos info').trans (if_neg colon), ?_⟩
    rw [portField, if_neg colon, Option.or_none]

theorem parseConfigLine_stop : stop (parseConfigLine line) = some e ↔ e = .outOfRange ∧ Unreadable line := by
  by_cases parameter : Parameter line
  · have taken : ¬ (line = [] ∨ line.head? = some '!') := not_or.mpr parameter
    rcases shape : words line with _ | ⟨name, _ | ⟨value, rest⟩⟩
    · have stops : parseConfigLine line = .error .outOfRange := by
        rw [parseConfigLine, if_neg taken, cutStringBySpace_eq, shape]
        rfl
      rw [stops, stop, Option.some.injEq, eq_comm]
      exact ⟨fun same => ⟨same, parameter, Or.inl shape⟩, fun both => both.1⟩
    · by_cases info : Info name
      · have stops : parseConfigLine line = .error .outOfRange := by
          have info' : name = coordinator_info ∨ name = participant_info := info
          rw [parseConfigLine, if_neg taken, cutStringBySpace_eq, shape]
          exact if_pos info'
        rw [stops, stop, Option.some.injEq, eq_comm]
        exact ⟨fun same => ⟨same, parameter, Or.inr ⟨name, info, shape⟩⟩, fun both => both.1⟩
      · rw [parseConfigLine_other parameter shape info]
        refine iff_of_false (by rintro ⟨⟩) ?_
        rintro ⟨-, -, none | ⟨other, info', same⟩⟩
        · exact absurd (shape.symm.trans none) (List.cons_ne_nil name [])
        · rw [shape] at same
          cases same
          exact info info'
    · have runs : ∃ row, parseConfigLine line = .ok row := by
        by_cases info : Info name
        · obtain ⟨ip, fields, ran, _⟩ := parseConfigLine_info parameter shape info
          exact ⟨_, ran⟩
        · exact ⟨_, parseConfigLine_other parameter shape info⟩
      obtain ⟨row, ran⟩ := runs
      rw [ran]
      refine iff_of_false (by rintro ⟨⟩) ?_
      rintro ⟨-, -, none | ⟨other, -, same⟩⟩
      · exact absurd (shape.symm.trans none) (List.cons_ne_nil name _)
      · rw [shape] at same
        cases same
  · rw [parseConfigLine_skipped parameter]
    exact iff_of_false (by rintro ⟨⟩) fun both => parameter both.2.1

def splitFault (split_str : List Str) : Option Stop := stop (readSplit ⟨-1, [], none, []⟩ split_str)

theorem readSplit_stop (s : Settings) (split_str : List Str) : stop (readSplit s split_str) = splitFault split_str := by
  refine stop_bind_congr fun name => ?_
  by_cases isMode : name = modeName
  · simp only [if_pos isMode]
    exact stop_bind_congr fun value => rfl
  by_cases coordinator : name = coordinator_info
  · simp only [if_neg isMode, if_pos coordinator]
    exact stop_bind_congr fun ip => stop_bind_congr fun port => rfl
  by_cases participant : name = participant_info
  · simp only [if_neg isMode, if_neg coordinator, if_pos participant]
    exact stop_bind_congr fun ip => stop_bind_congr fun port => rfl
  · simp only [if_neg isMode, if_neg coordinator, if_neg participant]
    rfl

def lineFault (line : Str) : Option Stop := (kept parseConfigLine line).bind splitFault

theorem mode_not_info : ¬ Info modeName := by
  rintro (same | same) <;> exact absurd same (by decide)

theorem lineFault_mode (parameter : Parameter line) (shape : words line = modeName :: rest) :
    lineFault line = if rest = [] then some .outOfRange else none := by
  rw [lineFault, kept, parseConfigLine_other parameter shape mode_not_info]
  cases rest <;> rfl

theorem lineFault_other (parameter : Parameter line) (shape : words line = name :: rest) (other : ¬ Info name)
    (notMode : name ≠ modeName) : lineFault line = none := by
  obtain ⟨notCoordinator, notParticipant⟩ := not_or.mp other
  rw [lineFault, kept, parseConfigLine_other parameter shape other]
  simp only [Option.bind_some, splitFault, readSplit, index_some (v := name :: rest) (i := 0) rfl, ok_bind, if_neg notMode,
    if_neg notCoordinator, if_neg notParticipant]
  rfl

theorem lineFault_info (parameter : Parameter line) (shape : words line = name :: value :: rest) (info : Info name) :
    lineFault line = match portField value rest with
      | none => some .outOfRange
      | some field => if stoi field = none then some .exception else none := by
  obtain ⟨ip, fields, ran, head⟩ := parseConfigLine_info parameter shape info
  have notMode : name ≠ modeName := fun same => mode_not_info (same ▸ info)
  have turn : lineFault line = stop ((index (name :: ip :: fields) 2).bind integer) := by
    simp only [lineFault, kept, ran, Option.bind_some, splitFault, readSplit,
      index_some (v := name :: ip :: fields) (i := 0) rfl, index_some (v := name :: ip :: fields) (i := 1) rfl, ok_bind,
      if_neg notMode]
    rcases info with coordinator | participant
    · simp only [if_pos coordinator]
      exact stop_bind_ok fun port => rfl
    · have other : name ≠ coordinator_info := by
        rw [participant]
        decide
      simp only [if_neg other, if_pos participant]
      exact stop_bind_ok fun port => rfl
  rw [turn, ← head]
  cases fields with
  | nil => rfl
  | cons field fields =>
    show stop (integer field) = if stoi field = none then some .exception else none
    rw [integer]
    cases stoi field <;> rfl

theorem lineFault_iff (readable : ¬ Unreadable line) :
    (lineFault line = some .outOfRange ↔ Lacking line) ∧ (lineFault line = some .exception ↔ PortRefused line) := by
  by_cases parameter : Parameter line
  · cases shape : words line with
    | nil => exact absurd ⟨parameter, Or.inl shape⟩ readable
    | cons name rest =>
      by_cases info : Info name
      · cases rest with
        | nil => exact absurd ⟨parameter, Or.inr ⟨name, info, shape⟩⟩ readable
        | cons value rest =>
          have lacking : Lacking line ↔ portField value rest = none := by
            constructor
            · rintro ⟨-, isMode | ⟨_, _, -, same, plain⟩⟩
              · rw [shape] at isMode
                cases isMode
              · rw [shape] at same
                cases same
                exact if_neg plain
            · intro none
              obtain ⟨few, plain⟩ := Option.or_eq_none_iff.mp none
              have plain' : ':' ∉ value := by
                intro colon
                rw [if_pos colon] at plain
                cases plain
              exact ⟨parameter, Or.inr ⟨name, value, info, by rw [shape, List.head?_eq_none_iff.mp few], plain'⟩⟩
          have refused : PortRefused line ↔ ∃ field, portField value rest = some field ∧ stoi field = none := by
            constructor
            · rintro ⟨-, _, _, _, field, -, same, found, bad⟩
              rw [shape] at same
              cases same
              exact ⟨field, found, bad⟩
            · rintro ⟨field, found, bad⟩
              exact ⟨parameter, name, value, rest, field, info, shape, found, bad⟩
          rw [lineFault_info parameter shape info, lacking, refused]
          cases portField value rest with
          | none => simp
          | some field => by_cases bad : stoi field = none <;> simp [bad]
      · have notRefused : ¬ PortRefused line := by
          rintro ⟨-, _, _, _, _, info', same, -⟩
          rw [shape] at same
          cases same
          exact info info'
        have lacking : Lacking line ↔ name = modeName ∧ rest = [] := by
          constructor
          · rintro ⟨-, isMode | ⟨_, _, info', same, -⟩⟩
            · rw [shape] at isMode
              cases isMode
              exact ⟨rfl, rfl⟩
            · rw [shape] at same
              cases same
              exact absurd info' info
          · rintro ⟨rfl, rfl⟩
            exact ⟨parameter, Or.inl shape⟩
        rw [lacking, iff_false_right notRefused]
        by_cases isMode : name = modeName
        · subst isMode
          rw [lineFault_mode parameter shape]
          by_cases few : rest = [] <;> simp [few]
        · rw [lineFault_other parameter shape info isMode]
          simp [isMode]
  · rw [lineFault, kept, parseConfigLine_skipped parameter]
    exact ⟨iff_of_false (by rintro ⟨⟩) fun lacking => parameter lacking.1,
      iff_of_false (by rintro ⟨⟩) fun refused => parameter refused.1⟩

theorem kept_head (readable : ¬ Unreadable line) :
    (kept parseConfigLine line).map List.head? =
      if words line ≠ [] ∧ line.head? ≠ some '!' then some (words line).head? else none := by
  by_cases parameter : Parameter line
  · have some_ : words line ≠ [] := fun none => readable ⟨parameter, Or.inl none⟩
    rw [if_pos ⟨some_, parameter.2⟩]
    obtain ⟨name, rest, shape⟩ := List.exists_cons_of_ne_nil some_
    by_cases info : Info name
    · cases rest with
      | nil => exact absurd ⟨parameter, Or.inr ⟨name, info, shape⟩⟩ readable
      | cons value rest =>
        obtain ⟨ip, fields, ran, _⟩ := parseConfigLine_info parameter shape info
        rw [kept, ran, shape]
        rfl
    · rw [kept, parseConfigLine_other parameter shape info, shape]
      rfl
  · rw [kept, parseConfigLine_skipped parameter, if_neg]
    · rfl
    · rintro ⟨some_, notComment⟩
      refine parameter ⟨?_, notComment⟩
      rintro rfl
      exact some_ words_nil

end lines

section file
variable {text : Str} {lines : List Str} {rows : List (List Str)}

/-- A file is read up to the first line at which `parseConfigFile` stops, and otherwise up to
the first at which the loop of `main` does. -/
theorem main_stop (text : Str) : stop (main (some text)) =
    ((getlines text).findSome? fun line => stop (parseConfigLine line)).or ((getlines text).findSome? lineFault) := by
  rw [main, parseConfigFile, ← stop_keep]
  cases ran : keep parseConfigLine (getlines text) with
  | error e => rfl
  | ok rows =>
    rw [ok_bind, stop_foldlM readSplit_stop, keep_ok ran, findSome?_filterMap]
    rfl

theorem findSome?_unreadable {e : Stop} (stops : (lines.findSome? fun line => stop (parseConfigLine line)) = some e) :
    e = .outOfRange ∧ ∃ line ∈ lines, Unreadable line := by
  obtain ⟨line, member, first⟩ := List.exists_of_findSome?_eq_some stops
  obtain ⟨out, unreadable⟩ := parseConfigLine_stop.mp first
  exact ⟨out, line, member, unreadable⟩

theorem findSome?_readable (readable : ∀ line ∈ lines, ¬ Unreadable line) :
    (lines.findSome? fun line => stop (parseConfigLine line)) = none := by
  cases stops : lines.findSome? fun line => stop (parseConfigLine line) with
  | none => rfl
  | some e =>
    obtain ⟨_, line, member, unreadable⟩ := findSome?_unreadable stops
    exact absurd unreadable (readable line member)

theorem main_inside : main (some text) ≠ .error .outOfRange ↔
    (∀ line ∈ getlines text, ¬ Unreadable line) ∧
      ∀ before line after, getlines text = before ++ line :: after → Lacking line → ∃ l ∈ before, PortRefused l := by
  rw [ne_eq, ← stop_eq_some_iff, main_stop]
  by_cases readable : ∀ line ∈ getlines text, ¬ Unreadable line
  · rw [findSome?_readable readable, Option.none_or, List.findSome?_eq_some_iff]
    constructor
    · intro inside
      refine ⟨readable, fun before line after whole lacking => ?_⟩
      by_contra unrefused
      cases first : before.findSome? lineFault with
      | none =>
        refine inside ⟨before, line, after, whole, ?_, List.findSome?_eq_none_iff.mp first⟩
        exact (lineFault_iff (readable line (by rw [whole]; simp))).1.mpr lacking
      | some e =>
        obtain ⟨earlier, l, between, split, fault, none⟩ := List.findSome?_eq_some_iff.mp first
        have member : l ∈ before := by rw [split]; simp
        have readable' := readable l (by rw [whole]; exact List.mem_append_left _ member)
        cases e with
        | outOfRange =>
          refine inside ⟨earlier, l, between ++ line :: after, ?_, fault, none⟩
          rw [whole, split, List.append_assoc, List.cons_append]
        | exception => exact unrefused ⟨l, member, (lineFault_iff readable').2.mp fault⟩
    · rintro ⟨-, behind_⟩ ⟨before, line, after, whole, fault, none⟩
      have among : ∀ l ∈ before ++ line :: after, ¬ Unreadable l := whole ▸ readable
      have lacking := (lineFault_iff (among line (by simp))).1.mp fault
      obtain ⟨l, member, refused⟩ := behind_ before line after whole lacking
      have fault' := (lineFault_iff (among l (List.mem_append_left _ member))).2.mpr refused
      rw [none l member] at fault'
      cases fault'
  · have some_ : ∃ line ∈ getlines text, Unreadable line := by
      by_contra none
      exact readable fun line member unreadable => none ⟨line, member, unreadable⟩
    obtain ⟨line, member, unreadable⟩ := some_
    refine iff_of_false (not_not.mpr ?_) fun both => readable both.1
    cases stops : (getlines text).findSome? fun line => stop (parseConfigLine line) with
    | none =>
      have runs := List.findSome?_eq_none_iff.mp stops line member
      rw [parseConfigLine_stop.mpr ⟨rfl, unreadable⟩] at runs
      cases runs
    | some e => rw [Option.some_or, (findSome?_unreadable stops).1]

theorem main_taken : (∃ settings, main (some text) = .ok settings) ↔
    ∀ line ∈ getlines text, ¬ Unreadable line ∧ ¬ Lacking line ∧ ¬ PortRefused line := by
  rw [← stop_eq_none_iff, main_stop, Option.or_eq_none_iff, List.findSome?_eq_none_iff,
    List.findSome?_eq_none_iff]
  constructor
  · rintro ⟨read, looped⟩ line member
    have readable : ¬ Unreadable line := fun unreadable =>
      nomatch (parseConfigLine_stop.mpr ⟨rfl, unreadable⟩).symm.trans (read line member)
    obtain ⟨lacking, refused⟩ := lineFault_iff readable
    rw [looped line member] at lacking refused
    exact ⟨readable, fun bad => (nomatch lacking.mpr bad), fun bad => (nomatch refused.mpr bad)⟩
  · intro all
    refine ⟨fun line member => ?_, fun line member => ?_⟩
    · by_contra stops
      obtain ⟨e, stops⟩ := Option.ne_none_iff_exists'.mp stops
      exact (all line member).1 (parseConfigLine_stop.mp stops).2
    · obtain ⟨readable, lacking, refused⟩ := all line member
      cases fault : lineFault line with
      | none => rfl
      | some e =>
        cases e with
        | outOfRange => exact absurd ((lineFault_iff readable).1.mp fault) lacking
        | exception => exact absurd ((lineFault_iff readable).2.mp fault) refused

theorem parseConfigFile_heads (ran : parseConfigFile (some text) = .ok rows) :
    rows.map List.head? = ((getlines text).filter fun line =>
      decide (words line ≠ [] ∧ line.head? ≠ some '!')).map fun line => (words line).head? := by
  have read : (getlines text).findSome? (fun line => stop (parseConfigLine line)) = none := by
    rw [← stop_keep]
    exact stop_eq_none_iff.mpr ⟨rows, ran⟩
  rw [keep_ok ran, List.map_filterMap, ← List.filterMap_eq_map', List.filterMap_filter]
  refine List.filterMap_congr fun line member => ?_
  have readable : ¬ Unreadable line := fun unreadable =>
    nomatch (parseConfigLine_stop.mpr ⟨rfl, unreadable⟩).symm.trans (List.findSome?_eq_none_iff.mp read line member)
  simp only [kept_head readable, decide_eq_true_eq]

end file

/-! What the file may hold. -/

def Incomplete (line : Str) : Prop :=
  (Parameter line ∧ ∃ name, (name = modeName ∨ Info name) ∧ words line = [name]) ∨ Colonless line

/-- No index is outside its line; a row is kept for each line that has a word and is no comment, in order and
with that word at its head; and a file with an incomplete line is not taken. -/
structure Safe (text : Str) : Prop where
  inside : main (some text) ≠ .error .outOfRange
  skipped : ∀ split_file_data, parseConfigFile (some text) = .ok split_file_data →
    split_file_data.map List.head? = ((getlines text).filter fun line =>
      decide (words line ≠ [] ∧ line.head? ≠ some '!')).map fun line => (words line).head?
  rejected : ∀ settings, main (some text) = .ok settings → ∀ line ∈ getlines text, ¬ Incomplete line

/-- Reading a configuration is safe exactly when every line that is neither empty nor a comment
has a word, and a second one if it gives an address, when a line without the mode or the port
comes behind one whose port is no number, and when an address has no colon only if some port
is no number. -/
theorem config_safe_iff (text : Str) : Safe text ↔
    (∀ line ∈ getlines text, ¬ Unreadable line) ∧
      (∀ before line after, getlines text = before ++ line :: after → Lacking line → ∃ l ∈ before, PortRefused l) ∧
      ∀ line ∈ getlines text, Colonless line → ∃ l ∈ getlines text, PortRefused l := by
  constructor
  · rintro ⟨inside, -, rejected⟩
    obtain ⟨readable, lacking⟩ := main_inside.mp inside
    refine ⟨readable, lacking, fun line member colonless => ?_⟩
    by_contra unrefused
    have taken : ∃ settings, main (some text) = .ok settings := by
      refine main_taken.mpr fun l among => ⟨readable l among, fun bad => ?_, fun bad => unrefused ⟨l, among, bad⟩⟩
      obtain ⟨before, after, whole⟩ := List.append_of_mem among
      obtain ⟨l', earlier, refused⟩ := lacking before l after whole bad
      exact unrefused ⟨l', by rw [whole]; exact List.mem_append_left _ earlier, refused⟩
    obtain ⟨settings, ran⟩ := taken
    exact rejected settings ran line member (Or.inr colonless)
  · rintro ⟨readable, lacking, colonless⟩
    refine ⟨main_inside.mpr ⟨readable, lacking⟩, fun rows ran => parseConfigFile_heads ran, ?_⟩
    rintro settings ran line member (⟨parameter, name, names, shape⟩ | bad)
    · obtain ⟨_, notLacking, _⟩ := main_taken.mp ⟨settings, ran⟩ line member
      rcases names with rfl | info
      · exact notLacking ⟨parameter, Or.inl shape⟩
      · exact readable line member ⟨parameter, Or.inr ⟨name, info, shape⟩⟩
    · obtain ⟨l, among, refused⟩ := colonless line member bad
      exact (main_taken.mp ⟨settings, ran⟩ l among).2.2 refused

/-- A line of blanks, a mode line without the mode and an address line without the port are
read past their end, and an address without a colon is taken. -/
theorem line_read_past_end :
    ¬ Safe "mode coordinator\n  \n".toList ∧ ¬ Safe "mode\n".toList ∧ ¬ Safe "participant_info 127.0.0.1\n".toList ∧
      ¬ Safe "participant_info 127.0.0.1 8002\n".toList := by
  have past : ∀ {text : Str}, decide (main (some text) = .error .outOfRange) = true → ¬ Safe text :=
    fun stops safe => safe.inside (of_decide_eq_true stops)
  refine ⟨past (by decide), past (by decide), past (by decide), fun safe => ?_⟩
  have ran : main (some "participant_info 127.0.0.1 8002\n".toList) =
      .ok ⟨-1, [], none, [⟨"127.0.0.1".toList, 8002, true⟩]⟩ := by decide
  have member : "participant_info 127.0.0.1 8002".toList ∈ getlines "participant_info 127.0.0.1 8002\n".toList := by
    decide
  have colonless : Colonless "participant_info 127.0.0.1 8002".toList :=
    ⟨⟨by decide, by decide⟩, participant_info, "127.0.0.1".toList, ["8002".toList], Or.inr rfl, by decide, by decide⟩
  exact safe.rejected _ ran _ member (Or.inr colonless)

end CloudLab.TwoPC
