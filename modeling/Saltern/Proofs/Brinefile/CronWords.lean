import Saltern.Proofs.Brinefile.Grammar
import Saltern.Proofs.Text.OneLine
import Saltern.Proofs.Text.WordList

/-!
# Cron lines word by word

Whether a text is a cron line, and which, is told by its words: the first five are the schedule, or
the first names it, and all from the next word on is the command. Written with single spaces, what
was read is read again.
-/

namespace Saltern

open Text

variable {s t : Text} {x : CronLine}

/-! ## Spelling -/

/-- The words a schedule is written with. -/
def Schedule.words : Schedule → List Text
  | .fields minute hour dayOfMonth month dayOfWeek => [minute, hour, dayOfMonth, month, dayOfWeek]
  | .special name => [name]

theorem Schedule.words_ne_nil (schedule : Schedule) : schedule.words ≠ [] := by
  cases schedule <;> exact List.cons_ne_nil _ _

namespace CronLine

/-- The words of the schedule and the command, joined by single spaces. -/
def text (x : CronLine) : Text := joinWith [' '] (x.schedule.words ++ [x.command])

/-- What a cron line is read as: words and a command on one line, and an at sign in front of the named
schedules only. -/
structure WellFormed (x : CronLine) : Prop where
  words : ∀ w ∈ x.schedule.words, IsWord w
  named : ∀ name, x.schedule = .special name → name ∈ specials
  timed : ∀ minute hour dayOfMonth month dayOfWeek,
    x.schedule = .fields minute hour dayOfMonth month dayOfWeek → minute.head? ≠ some '@'
  command : IsCommand x.command
  trimmed : IsTrimmed x.command

theorem joinWith_spaced (ws : List Text) (u : Text) :
    joinWith [' '] (ws ++ [u]) = ((ws.map fun w ↦ (w, [' '])).flatMap fun f ↦ f.1 ++ f.2) ++ u := by
  induction ws with
  | nil => rfl
  | cons w ws ih =>
      rw [List.map_cons, List.flatMap_cons, List.append_assoc, ← ih]
      exact joinWith_append (List.cons_ne_nil w []) (List.append_ne_nil_of_right_ne_nil ws (List.cons_ne_nil u []))

namespace WellFormed

/-- A cron line begins with the first word of its schedule. -/
theorem head?_text (h : x.WellFormed) {w : Text} (hw : x.schedule.words.head? = some w) :
    IsWord w ∧ x.text.head? = w.head? := by
  obtain ⟨ws, hws⟩ := List.head?_eq_some_iff.mp hw
  have hword : IsWord w := h.words w (by simp [hws])
  refine ⟨hword, ?_⟩
  rw [text, joinWith_spaced, hws, List.map_cons, List.flatMap_cons, List.append_assoc, List.append_assoc]
  exact List.head?_append_of_ne_nil w hword.1

theorem isTrimmed_text (h : x.WellFormed) : IsTrimmed x.text := by
  obtain ⟨w, ws, hws⟩ := List.exists_cons_of_ne_nil x.schedule.words_ne_nil
  obtain ⟨hword, hhead⟩ := h.head?_text (w := w) (by rw [hws, List.head?_cons])
  constructor
  · rw [hhead, ← List.append_nil w]
    exact hword.head? []
  · rw [text, joinWith_spaced, List.getLast?_append_of_ne_nil _ h.command.1]
    exact h.trimmed.2

theorem firstWords_text (h : x.WellFormed) :
    firstWords x.schedule.words.length x.text = some (x.schedule.words, x.command) := by
  have hgap : IsGap [' '] := ⟨List.cons_ne_nil _ _, List.forall_mem_singleton.mpr rfl⟩
  have hfields : ∀ f ∈ x.schedule.words.map fun w ↦ (w, [' ']), IsWord f.1 ∧ IsGap f.2 := by
    simpa using fun w hw ↦ ⟨h.words w hw, hgap⟩
  have hne : (x.schedule.words.map fun w ↦ (w, [' '])) ≠ [] := by simpa using x.schedule.words_ne_nil
  have hfirst := firstWords_append hne hfields x.command
  have hmap : (x.schedule.words.map fun w ↦ (w, [' '])).map Prod.fst = x.schedule.words := by
    rw [List.map_map]
    exact List.map_id _
  rwa [← joinWith_spaced, List.length_map, hmap, dropWhile_isBlank_of_head? h.trimmed.1] at hfirst

end WellFormed

theorem asciiLower_of_mem_specials {name : Text} (h : name ∈ specials) : asciiLower name = name := by
  have hall : ∀ name ∈ specials, asciiLower name = name := by decide
  exact hall name h

theorem head?_of_mem_specials {name : Text} (h : name ∈ specials) : name.head? = some '@' := by
  have hall : ∀ name ∈ specials, name.head? = some '@' := by decide
  exact hall name h

/-- Reading a well-formed cron line as it is written gives it back. -/
theorem ofText?_text (h : x.WellFormed) : ofText? x.text = some x := by
  have hfirst := h.firstWords_text
  rw [ofText?, trim_eq_self_iff.mpr h.isTrimmed_text]
  obtain ⟨schedule, command⟩ := x
  cases schedule with
  | fields minute hour dayOfMonth month dayOfWeek =>
      rw [(h.head?_text rfl).2, if_neg (h.timed _ _ _ _ _ rfl)]
      exact ofFields?_eq_some_iff.mpr ⟨_, _, _, _, _, _, hfirst, h.command.2, rfl⟩
  | special name =>
      have hname := h.named name rfl
      have hlower := asciiLower_of_mem_specials hname
      rw [(h.head?_text rfl).2, if_pos (head?_of_mem_specials hname)]
      exact ofSpecial?_eq_some_iff.mpr
        ⟨name, command, firstWords_one_eq_some_iff.mp hfirst, hlower.symm ▸ hname, h.command.2, by rw [hlower]⟩

/-! ## Reading -/

theorem ofSpecial?_iff_words (ht : IsTrimmed t) :
    ofSpecial? t = some x ↔ (∃ w, (words t).head? = some w ∧ asciiLower w ∈ specials ∧
        x = ⟨.special (asciiLower w), fromWord 1 t⟩) ∧
      2 ≤ (words t).length ∧ ∀ c ∈ fromWord 1 t, isLineEnd c = false := by
  rw [ofSpecial?_eq_some_iff]
  simp only [firstWord_eq_some_iff ht]
  constructor
  · rintro ⟨w, r, ⟨hlength, hw, rfl⟩, hname, hends, rfl⟩
    exact ⟨⟨w, hw, hname, rfl⟩, hlength, hends⟩
  · rintro ⟨⟨w, hw, hname, rfl⟩, hlength, hends⟩
    exact ⟨w, _, ⟨hlength, hw, rfl⟩, hname, hends, rfl⟩

theorem ofFields?_iff_words (ht : IsTrimmed t) :
    ofFields? t = some x ↔ (∃ minute hour dayOfMonth month dayOfWeek,
        (words t).take 5 = [minute, hour, dayOfMonth, month, dayOfWeek] ∧
          x = ⟨.fields minute hour dayOfMonth month dayOfWeek, fromWord 5 t⟩) ∧
      6 ≤ (words t).length ∧ ∀ c ∈ fromWord 5 t, isLineEnd c = false := by
  rw [ofFields?_eq_some_iff]
  simp only [firstWords_eq_some_iff ht]
  constructor
  · rintro ⟨w₁, w₂, w₃, w₄, w₅, r, ⟨hlength, hws, rfl⟩, hends, rfl⟩
    exact ⟨⟨w₁, w₂, w₃, w₄, w₅, hws, rfl⟩, hlength, hends⟩
  · rintro ⟨⟨w₁, w₂, w₃, w₄, w₅, hws, rfl⟩, hlength, hends⟩
    exact ⟨w₁, w₂, w₃, w₄, w₅, _, ⟨hlength, hws, rfl⟩, hends, rfl⟩

/-- A cron line as its words tell it: behind the name of a schedule, in any letter case, or else behind
five words stands one more word, and there is no line end from that one on. -/
def HasWords (t : Text) : Prop :=
  if t.head? = some '@' then
    (∃ w, (words t).head? = some w ∧ asciiLower w ∈ specials) ∧ 2 ≤ (words t).length ∧
      ∀ c ∈ fromWord 1 t, isLineEnd c = false
  else 6 ≤ (words t).length ∧ ∀ c ∈ fromWord 5 t, isLineEnd c = false

/-- The cron line that the words of a text tell. -/
def IsToldBy (t : Text) (x : CronLine) : Prop :=
  if t.head? = some '@' then
    ∃ w, (words t).head? = some w ∧ x = ⟨.special (asciiLower w), fromWord 1 t⟩
  else ∃ minute hour dayOfMonth month dayOfWeek,
    (words t).take 5 = [minute, hour, dayOfMonth, month, dayOfWeek] ∧
      x = ⟨.fields minute hour dayOfMonth month dayOfWeek, fromWord 5 t⟩

theorem ofText?_eq_some_iff : ofText? s = some x ↔ HasWords (trim s) ∧ IsToldBy (trim s) x := by
  have ht := isTrimmed_trim s
  rw [ofText?, HasWords, IsToldBy]
  split
  · rw [ofSpecial?_iff_words ht]
    constructor
    · rintro ⟨⟨w, hw, hname, rfl⟩, hlength, hends⟩
      exact ⟨⟨⟨w, hw, hname⟩, hlength, hends⟩, w, hw, rfl⟩
    · rintro ⟨⟨⟨w, hw, hname⟩, hlength, hends⟩, w', hw', rfl⟩
      obtain rfl : w = w' := Option.some.inj (hw.symm.trans hw')
      exact ⟨⟨w, hw, hname, rfl⟩, hlength, hends⟩
  · rw [ofFields?_iff_words ht, and_comm]

/-- A text with the words of a cron line tells one. -/
theorem HasWords.exists_isToldBy (h : HasWords t) : ∃ x, IsToldBy t x := by
  rw [HasWords] at h
  simp only [IsToldBy]
  split
  · next hat =>
    rw [if_pos hat] at h
    obtain ⟨⟨w, hw, -⟩, -⟩ := h
    exact ⟨_, w, hw, rfl⟩
  · next hat =>
    rw [if_neg hat] at h
    have hfive : ((words t).take 5).length = 5 := by
      rw [List.length_take]
      omega
    match hws : (words t).take 5, hfive with
    | [w₁, w₂, w₃, w₄, w₅], _ => exact ⟨_, w₁, w₂, w₃, w₄, w₅, rfl, rfl⟩

/-- What is read is well-formed. -/
theorem ofText?_wellFormed (h : ofText? s = some x) : x.WellFormed := by
  have ht := isTrimmed_trim s
  rw [ofText?] at h
  split at h
  · obtain ⟨⟨w, -, hname, rfl⟩, hlength, hends⟩ := (ofSpecial?_iff_words ht).mp h
    have hword : IsWord (asciiLower w) := isWord_of_mem_specials (by rwa [asciiLower_of_mem_specials hname])
    exact {
      words := List.forall_mem_singleton.mpr hword
      named := fun name hspecial ↦ Schedule.special.inj hspecial ▸ hname
      timed := fun _ _ _ _ _ hfields ↦ by cases hfields
      command := ⟨fromWord_ne_nil hlength, hends⟩
      trimmed := isTrimmed_fromWord ht 1 }
  · next hat =>
    obtain ⟨⟨w₁, w₂, w₃, w₄, w₅, hws, rfl⟩, hlength, hends⟩ := (ofFields?_iff_words ht).mp h
    have hwords : ∀ w ∈ [w₁, w₂, w₃, w₄, w₅], IsWord w := fun w hw ↦
      isWord_of_mem_words (List.mem_of_mem_take (hws.symm ▸ hw))
    have hhead : (trim s).head? = w₁.head? := by
      refine head?_of_head?_words ht ?_
      simpa [List.head?_take] using congrArg List.head? hws
    exact {
      words := hwords
      named := fun _ hspecial ↦ by cases hspecial
      timed := fun _ _ _ _ _ hfields ↦ (Schedule.fields.inj hfields).1 ▸ hhead ▸ hat
      command := ⟨fromWord_ne_nil hlength, hends⟩
      trimmed := isTrimmed_fromWord ht 5 }

/-- Exactly the texts with the words of a cron line are read, as what these words tell, and what is read is
read again from its words and its command with single spaces between them. -/
theorem ofText?_words (s : Text) :
    ((∃ x, ofText? s = some x) ↔ HasWords (trim s)) ∧
      ∀ x, ofText? s = some x → IsToldBy (trim s) x ∧ ofText? x.text = some x := by
  refine ⟨⟨fun ⟨x, hx⟩ ↦ (ofText?_eq_some_iff.mp hx).1, fun h ↦ ?_⟩, fun x hx ↦ ?_⟩
  · obtain ⟨x, hx⟩ := h.exists_isToldBy
    exact ⟨x, ofText?_eq_some_iff.mpr ⟨h, hx⟩⟩
  · exact ⟨(ofText?_eq_some_iff.mp hx).2, ofText?_text (ofText?_wellFormed hx)⟩

/-- The command keeps its inner blanks, the schedule is in lower case. -/
theorem ofText?_words_reboot :
    ofText? " @Reboot\t echo  up " = some ⟨.special "@reboot", "echo  up"⟩ ∧
      ofText? "@reboot echo  up" = some ⟨.special "@reboot", "echo  up"⟩ := by
  have hread : ofText? " @Reboot\t echo  up " = some ⟨.special "@reboot", "echo  up"⟩ := rfl
  exact ⟨hread, ((ofText?_words _).2 _ hread).2⟩

end CronLine

end Saltern
