import Saltern.Brinefile.Contents
import Saltern.Proofs.Brinefile.PrintedLine
import Saltern.Proofs.Text.OneLine
import Saltern.Proofs.Text.Words

/-!
# The grammar of entries

What an entry of each section looks like, and what an entry that does not is blamed for. The
readers accept exactly these entries, and their faults are exactly these.
-/

namespace Saltern

open Text

variable {t : Text} {k : Keyword} {kind : ItemKind} {l : Line} {e : Fault}

/-! ## Names -/

/-- Parts of letters, digits, underscores and hyphens, with dots between them. -/
def IsDotted (t : Text) : Prop :=
  ∃ parts : List Text, parts ≠ [] ∧ (∀ p ∈ parts, p ≠ [] ∧ ∀ c ∈ p, isNameChar c = true) ∧
    t = joinWith ['.'] parts

theorem isDottedName_iff : isDottedName t = true ↔ IsDotted t := by
  have hparts : isDottedName t = true ↔ ∀ p ∈ splitOn '.' t, p ≠ [] ∧ ∀ c ∈ p, isNameChar c = true := by
    simp [isDottedName]
  rw [hparts]
  constructor
  · intro h
    exact ⟨splitOn '.' t, splitOn_ne_nil '.' t, h, (joinWith_splitOn '.' t).symm⟩
  · rintro ⟨parts, hne, h, rfl⟩
    have hdot : ∀ p ∈ parts, '.' ∉ p := fun p hp hm ↦ absurd ((h p hp).2 '.' hm) (by decide)
    rwa [splitOn_joinWith hne hdot]

/-- A dotted name says something, and holds no character but those of its parts and dots. -/
theorem IsDotted.spec (h : IsDotted t) : t ≠ [] ∧ ∀ c ∈ t, isNameChar c = true ∨ c = '.' := by
  obtain ⟨parts, hne, hparts, rfl⟩ := h
  obtain ⟨p, ps, rfl⟩ := List.exists_cons_of_ne_nil hne
  constructor
  · intro hnil
    have hinfix : p <:+: joinWith ['.'] (p :: ps) := isInfix_joinWith List.mem_cons_self
    rw [hnil, List.infix_nil] at hinfix
    exact (hparts p List.mem_cons_self).1 hinfix
  · intro c hc
    rcases mem_joinWith hc with hdot | ⟨q, hq, hc⟩
    · exact .inr (List.mem_singleton.mp hdot)
    · exact .inl ((hparts q hq).2 c hc)

/-- No blank and no sign that lines are told apart by stands in a dotted name. -/
theorem IsDotted.not_mem {c : Char} (h : IsDotted t) (hc : isBlank c = true ∨ c = '%' ∨ c = '#') : c ∉ t := by
  have hblanks : blanks.all (fun b ↦ !isNameChar b && b != '.') = true := by decide
  intro hmem
  rcases hc with hc | rfl | rfl
  · have hother := List.all_eq_true.mp hblanks c (List.contains_iff_mem.mp hc)
    rw [Bool.and_eq_true, Bool.not_eq_true', bne_iff_ne] at hother
    rcases h.spec.2 c hmem with hchar | hchar
    · exact Bool.false_ne_true (hother.1.symm.trans hchar)
    · exact hother.2 hchar
  · exact absurd (h.spec.2 _ hmem) (by decide)
  · exact absurd (h.spec.2 _ hmem) (by decide)

/-! ## Items -/

namespace ItemLine

/-- An entry without the minus sign in front. -/
def unsigned (t : Text) : Text := if t.head? = some '-' then t.tail else t

/-- What an entry names: all that stands before its first equals sign. -/
def target (t : Text) : Text := trim ((unsigned t).takeWhile (· ≠ '='))

/-- What an entry gives: all that stands behind its first equals sign. -/
def value (t : Text) : Text := trim ((unsigned t).dropWhile (· ≠ '=')).tail

theorem mem_unsigned_iff {c : Char} (hc : c ≠ '-') : c ∈ unsigned t ↔ c ∈ t := by
  cases t with
  | nil => simp [unsigned]
  | cons d t =>
      unfold unsigned
      split
      · next hd =>
        obtain rfl := Option.some.inj hd
        simp [hc]
      · rfl

theorem takeWhile_of_not_mem (h : '=' ∉ t) : t.takeWhile (· ≠ '=') = t := by
  rw [List.takeWhile_eq_self_iff]
  intro c hc
  simpa using ne_of_mem_of_not_mem hc h

theorem dropWhile_of_not_mem (h : '=' ∉ t) : t.dropWhile (· ≠ '=') = [] := by
  rw [List.dropWhile_eq_nil_iff]
  intro c hc
  simpa using ne_of_mem_of_not_mem hc h

theorem value_of_not_mem (h : '=' ∉ t) : value t = [] := by
  rw [value, dropWhile_of_not_mem fun hm ↦ h ((mem_unsigned_iff (by decide)).mp hm)]
  rfl

theorem cutValue_of_mem (h : '=' ∈ t) :
    cutValue t = some (trim (t.takeWhile (· ≠ '=')), trim (t.dropWhile (· ≠ '=')).tail) := by
  obtain ⟨a, b, rfl, ha⟩ := List.eq_append_cons_of_mem h
  have hfront : ∀ c ∈ a, decide (c ≠ '=') = true := fun c hc ↦ by
    simpa using ne_of_mem_of_not_mem hc ha
  rw [cutValue_eq_some_iff, List.takeWhile_append_of_pos hfront, List.dropWhile_append_of_pos hfront]
  exact ⟨a, b, rfl, ha, by simp, by simp⟩

/-- Blanks around an item make no difference to its sides. -/
theorem cutValue_trim (t : Text) : cutValue (trim t) = cutValue t := by
  obtain ⟨x, y, ht, hx, hy⟩ := exists_eq_trim t
  cases h : cutValue (trim t) with
  | none =>
      rw [cutValue_eq_none_iff] at h
      refine (cutValue_eq_none_iff.mpr ?_).symm
      rw [ht]
      simp only [List.mem_append, not_or]
      exact ⟨⟨fun hm ↦ absurd (hx _ hm) (by decide), h⟩, fun hm ↦ absurd (hy _ hm) (by decide)⟩
  | some p =>
      obtain ⟨a, b, hab, ha, hp₁, hp₂⟩ := cutValue_eq_some_iff.mp h
      refine (cutValue_eq_some_iff.mpr ⟨x ++ a, b ++ y, ?_, ?_, ?_, ?_⟩).symm
      · rw [ht, hab]
        simp
      · rw [List.mem_append, not_or]
        exact ⟨fun hm ↦ absurd (hx _ hm) (by decide), ha⟩
      · rw [← hp₁]
        simpa using trim_append_append (t := a) (b := []) hx nofun
      · rw [← hp₂]
        simpa using trim_append_append (t := b) (a := []) nofun hy

/-- How an entry is read, by its sign and its sides. -/
theorem ofText_eq (ht : IsTrimmed t) :
    ofText t =
      if t.head? = some '-' then
        if '=' ∈ t then .conflict (target t) (value t) else .absent (target t)
      else .present (target t) (if value t = [] then none else some (value t)) := by
  have htrim := trim_eq_self_iff.mpr ht
  by_cases hminus : t.head? = some '-'
  · obtain ⟨r, rfl⟩ := List.head?_eq_some_iff.mp hminus
    have hr : unsigned ('-' :: r) = r := rfl
    rw [if_pos hminus, ofText_of_minus htrim, ofRemoved, cutValue_trim, target, value, hr]
    by_cases hsign : '=' ∈ r
    · rw [if_pos (List.mem_cons_of_mem _ hsign), cutValue_of_mem hsign]
    · rw [if_neg (by simpa using hsign), cutValue_eq_none_iff.mpr hsign, takeWhile_of_not_mem hsign]
  · have hkept : unsigned t = t := if_neg hminus
    rw [if_neg hminus, ofText_of_kept (htrim.symm ▸ hminus), htrim, ofKept, target, value, hkept]
    by_cases hsign : '=' ∈ t
    · rw [cutValue_of_mem hsign]
      simp only [List.isEmpty_iff]
    · rw [cutValue_eq_none_iff.mpr hsign, takeWhile_of_not_mem hsign, dropWhile_of_not_mem hsign, htrim]
      rfl

end ItemLine

open ItemLine in
/-- An item: a name, no removal that gives a value as well, no value for a service, and an octal
mode where a file or directory has a value. -/
structure IsItem (kind : ItemKind) (t : Text) : Prop where
  sign : ¬ (t.head? = some '-' ∧ '=' ∈ t)
  target : target t ≠ []
  service : kind = .service → value t = []
  mode : kind = .file ∨ kind = .directory → value t ≠ [] → isMode (value t) = true

open ItemLine in
/-- What an entry that is no item is blamed for. -/
inductive ItemFault (k : Keyword) (kind : ItemKind) (l : Line) : Fault → Prop
  | removalWithValue (hminus : l.content.head? = some '-') (hsign : '=' ∈ l.content) :
      ItemFault k kind l (.removalWithValue l.content (target l.content) k l.number)
  | missingTarget (hsign : ¬ (l.content.head? = some '-' ∧ '=' ∈ l.content))
      (htarget : target l.content = []) : ItemFault k kind l (.missingTarget l.content kind k l.number)
  | valueOnService (hsign : ¬ (l.content.head? = some '-' ∧ '=' ∈ l.content))
      (htarget : target l.content ≠ []) (hvalue : value l.content ≠ []) (hkind : kind = .service) :
      ItemFault k kind l (.valueOnService l.content k l.number)
  | invalidMode (hsign : ¬ (l.content.head? = some '-' ∧ '=' ∈ l.content))
      (htarget : target l.content ≠ []) (hvalue : value l.content ≠ [])
      (hkind : kind = .file ∨ kind = .directory) (hmode : isMode (value l.content) = false) :
      ItemFault k kind l (.invalidMode (value l.content) k l.number)

namespace Section

open ItemLine in
/-- How an item is read, check by check. -/
theorem item_eq (k : Keyword) (kind : ItemKind) (l : Line) :
    item k kind l =
      if l.content.head? = some '-' ∧ '=' ∈ l.content then
        .error (.removalWithValue l.content (target l.content) k l.number)
      else if target l.content = [] then .error (.missingTarget l.content kind k l.number)
      else if value l.content ≠ [] ∧ kind = .service then .error (.valueOnService l.content k l.number)
      else if value l.content ≠ [] ∧ (kind = .file ∨ kind = .directory) ∧ isMode (value l.content) = false then
        .error (.invalidMode (value l.content) k l.number)
      else .ok ⟨kind, target l.content,
        if l.content.head? = some '-' then .absent
        else .present (if value l.content = [] then none else some (value l.content)), l.number⟩ := by
  rw [item, ofText_eq l.isTrimmed_content]
  generalize l.content = t
  by_cases hminus : t.head? = some '-'
  · by_cases hsign : '=' ∈ t
    · simp only [hminus, hsign, and_self, if_true]
    · have hvalue : value t = [] := value_of_not_mem hsign
      simp only [hminus, hsign, hvalue, if_true, if_false, and_false, false_and, ne_eq, not_true,
        List.isEmpty_iff]
  · simp only [hminus, if_false, false_and, List.isEmpty_iff]
    by_cases htarget : target t = []
    · rw [if_pos htarget, if_pos htarget]
    · by_cases hvalue : value t = []
      · simp only [htarget, hvalue, if_true, if_false, false_and, ne_eq, not_true]
      · simp only [htarget, hvalue, if_false, true_and, ne_eq, not_false_eq_true, Bool.not_eq_true]

/-- Exactly the items are read. -/
theorem exists_item_iff : (∃ i, item k kind l = .ok i) ↔ IsItem kind l.content := by
  rw [item_eq]
  constructor
  · rintro ⟨i, hi⟩
    split at hi
    · cases hi
    · next hsign =>
      split at hi
      · cases hi
      · next htarget =>
        split at hi
        · cases hi
        · next hservice =>
          split at hi
          · cases hi
          · next hmode =>
            refine ⟨hsign, htarget, fun hk ↦ ?_, fun hk hv ↦ ?_⟩
            · by_contra hv
              exact hservice ⟨hv, hk⟩
            · by_contra hm
              exact hmode ⟨hv, hk, by simpa using hm⟩
  · rintro ⟨hsign, htarget, hservice, hmode⟩
    rw [if_neg hsign, if_neg htarget, if_neg fun h ↦ h.1 (hservice h.2),
      if_neg fun h ↦ by simp [hmode h.2.1 h.1] at h]
    exact ⟨_, rfl⟩

/-- An entry that is no item is blamed for what it misses first. -/
theorem item_eq_error_iff : item k kind l = .error e ↔ ItemFault k kind l e := by
  rw [item_eq]
  constructor
  · intro h
    split at h
    · next hsign =>
      cases h
      exact .removalWithValue hsign.1 hsign.2
    · next hsign =>
      split at h
      · next htarget =>
        cases h
        exact .missingTarget hsign htarget
      · next htarget =>
        split at h
        · next hservice =>
          cases h
          exact .valueOnService hsign htarget hservice.1 hservice.2
        · split at h
          · next hmode =>
            cases h
            exact .invalidMode hsign htarget hmode.1 hmode.2.1 hmode.2.2
          · cases h
  · rintro (⟨hminus, hsign⟩ | ⟨hsign, htarget⟩ | ⟨hsign, htarget, hvalue, hkind⟩ |
      ⟨hsign, htarget, hvalue, hkind, hmode⟩)
    · rw [if_pos ⟨hminus, hsign⟩]
    · rw [if_neg hsign, if_pos htarget]
    · rw [if_neg hsign, if_neg htarget, if_pos ⟨hvalue, hkind⟩]
    · have hservice : ¬ (ItemLine.value l.content ≠ [] ∧ kind = .service) := by
        rintro ⟨-, rfl⟩
        simp at hkind
      rw [if_neg hsign, if_neg htarget, if_neg hservice, if_pos ⟨hvalue, hkind, hmode⟩]

end Section

/-! ## Symlinks -/

/-- A symlink entry without its removal sign: a minus sign in front that is no part of an arrow. -/
def LinkLine.unsigned (t : Text) : Text :=
  if t.head? = some '-' ∧ ¬ ['-', '>'] <+: t then t.tail else t

/-- A symlink: one arrow, and text on both sides of it. -/
def IsLink (t : Text) : Prop :=
  ∃ a b, LinkLine.unsigned t = a ++ '-' :: '>' :: b ∧ ¬ ['-', '>'] <:+: a ∧ ¬ ['-', '>'] <:+: b ∧
    trim a ≠ [] ∧ trim b ≠ []

/-- A symlink entry is read at its only arrow, behind its removal sign. -/
theorem LinkLine.exists_ofText?_eq (ht : IsTrimmed t) : ∃ p, ofText? t = ofSides? p (unsigned t) := by
  have htrim := trim_eq_self_iff.mpr ht
  by_cases hminus : t.head? = some '-'
  · obtain ⟨r, rfl⟩ := List.head?_eq_some_iff.mp hminus
    by_cases hgt : r.head? = some '>'
    · obtain ⟨s, rfl⟩ := List.head?_eq_some_iff.mp hgt
      have hwhole : unsigned ('-' :: '>' :: s) = '-' :: '>' :: s := if_neg fun h ↦ h.2 ⟨s, rfl⟩
      exact ⟨.present, by rw [ofText?_of_arrow htrim, hwhole, ofSides?_arrow]⟩
    · have hrest : unsigned ('-' :: r) = r := by
        refine if_pos ⟨rfl, ?_⟩
        rintro ⟨s, hs⟩
        exact hgt (by rw [← (List.cons.inj hs).2]; rfl)
      exact ⟨.absent, by rw [ofText?_of_minus htrim hgt, hrest]⟩
  · have hwhole : unsigned t = t := if_neg fun h ↦ hminus h.1
    exact ⟨.present, by rw [ofText?_of_kept (htrim.symm ▸ hminus), htrim, hwhole]⟩

/-- Exactly the symlinks are read. -/
theorem LinkLine.exists_ofText?_iff (ht : IsTrimmed t) : (∃ x, ofText? t = some x) ↔ IsLink t := by
  obtain ⟨p, hp⟩ := exists_ofText?_eq ht
  simp only [hp, ofSides?_eq_some_iff, arrowFree_iff, IsLink]
  constructor
  · rintro ⟨x, a, b, hu, ha, hb, hta, htb, -⟩
    exact ⟨a, b, hu, ha, hb, hta, htb⟩
  · rintro ⟨a, b, hu, ha, hb, hta, htb⟩
    exact ⟨_, a, b, hu, ha, hb, hta, htb, rfl⟩

/-! ## Settings -/

/-- The key of a setting: all that stands before the first equals sign. -/
def Setting.keyOf (t : Text) : Text := trim (t.takeWhile (· ≠ '='))

/-- A setting: an equals sign, and before it a key without a minus sign in front. -/
structure IsSetting (t : Text) : Prop where
  sign : '=' ∈ t
  key : Setting.keyOf t ≠ []
  kept : (Setting.keyOf t).head? ≠ some '-'

/-- What an entry that is no setting is blamed for. -/
inductive SettingFault (l : Line) : Fault → Prop
  | withoutValue (h : '=' ∉ l.content ∨ Setting.keyOf l.content = []) :
      SettingFault l (.settingWithoutValue l.content l.number)
  | removal (hsign : '=' ∈ l.content) (hminus : (Setting.keyOf l.content).head? = some '-') :
      SettingFault l (.settingRemoval l.content l.number)

namespace Section

/-- How a setting is read, check by check. -/
theorem setting_eq (l : Line) :
    setting l =
      if '=' ∉ l.content ∨ Setting.keyOf l.content = [] then
        .error (.settingWithoutValue l.content l.number)
      else if (Setting.keyOf l.content).head? = some '-' then .error (.settingRemoval l.content l.number)
      else .ok ⟨Setting.keyOf l.content, trim (l.content.dropWhile (· ≠ '=')).tail⟩ := by
  rw [setting, Setting.ofText?, trim_eq_self_iff.mpr l.isTrimmed_content]
  by_cases hsign : '=' ∈ l.content
  · rw [ItemLine.cutValue_of_mem hsign, ← Setting.keyOf]
    by_cases hkey : Setting.keyOf l.content = []
    · simp only [hkey, List.isEmpty_nil, if_true, or_true]
    · simp only [hkey, List.isEmpty_iff, if_false, hsign, not_true, or_self]
  · rw [ItemLine.cutValue_eq_none_iff.mpr hsign, if_pos (.inl hsign)]

/-- Exactly the settings are read. -/
theorem exists_setting_iff : (∃ s, setting l = .ok s) ↔ IsSetting l.content := by
  rw [setting_eq]
  constructor
  · rintro ⟨s, hs⟩
    split at hs
    · cases hs
    · next hkey =>
      split at hs
      · cases hs
      · next hkept =>
        rw [not_or, not_not] at hkey
        exact ⟨hkey.1, hkey.2, hkept⟩
  · rintro ⟨hsign, hkey, hkept⟩
    rw [if_neg fun h ↦ h.elim (absurd hsign) hkey, if_neg hkept]
    exact ⟨_, rfl⟩

theorem setting_eq_error_iff : setting l = .error e ↔ SettingFault l e := by
  rw [setting_eq]
  constructor
  · intro h
    split at h
    · next hkey =>
      cases h
      exact .withoutValue hkey
    · next hkey =>
      split at h
      · next hminus =>
        cases h
        exact .removal (not_not.mp fun hsign ↦ hkey (.inl hsign)) hminus
      · cases h
  · rintro (h | ⟨hsign, hminus⟩)
    · rw [if_pos h]
    · have hkey : ¬ ('=' ∉ l.content ∨ Setting.keyOf l.content = []) := by
        rintro (h | h)
        · exact h hsign
        · simp [h] at hminus
      rw [if_neg hkey, if_pos hminus]

end Section

/-! ## Cron jobs -/

/-- A command: at least one character, and no line end. -/
def IsCommand (t : Text) : Prop := t ≠ [] ∧ ∀ c ∈ t, isLineEnd c = false

/-- Five schedule fields, a gap behind each. -/
def IsSchedule (fields : List (Text × Text)) : Prop :=
  fields.length = 5 ∧ ∀ f ∈ fields, IsWord f.1 ∧ IsGap f.2

/-- A named schedule, in any letter case, and a command. -/
def IsNamedJob (t : Text) : Prop :=
  ∃ name gap command, asciiLower name ∈ CronLine.specials ∧ IsGap gap ∧ IsCommand command ∧
    t = name ++ gap ++ command

/-- Five fields and a command. -/
def IsTimedJob (t : Text) : Prop :=
  ∃ fields command, IsSchedule fields ∧ IsCommand command ∧
    t = (fields.flatMap fun f ↦ f.1 ++ f.2) ++ command

/-- A cron line; one that starts with an at sign has to name its schedule. -/
def IsCronLine (t : Text) : Prop := if t.head? = some '@' then IsNamedJob t else IsTimedJob t

theorem IsCommand.oneLine_dropWhile (h : IsCommand t) : ∀ c ∈ t.dropWhile isBlank, isLineEnd c = false :=
  fun c hc ↦ h.2 c ((List.dropWhile_sublist _).subset hc)

namespace CronLine

/-- A rest of a line is a command unless it runs over a line end. -/
theorem command?_eq_some_iff {u : Text} : command? t = some u ↔ (∀ c ∈ t, isLineEnd c = false) ∧ u = t := by
  have hany : t.any isLineEnd = true ↔ ¬ ∀ c ∈ t, isLineEnd c = false := by simp
  unfold command?
  split
  · next h => exact ⟨nofun, fun h' ↦ absurd h'.1 (hany.mp h)⟩
  · next h => exact ⟨fun hu ↦ ⟨not_not.mp (mt hany.mpr h), (Option.some.inj hu).symm⟩, fun h' ↦ congrArg some h'.2.symm⟩

theorem asciiLowerChar_of_isBlank {c : Char} (h : isBlank c = true) : asciiLowerChar c = c := by
  have hall : blanks.all (fun d ↦ asciiLowerChar d = d) = true := by decide
  exact of_decide_eq_true (List.all_eq_true.mp hall c (by simpa [isBlank] using h))

/-- A named schedule is a word, whatever the case of its letters. -/
theorem isWord_of_mem_specials {name : Text} (h : asciiLower name ∈ specials) : IsWord name := by
  have hspecials : ∀ s ∈ specials, s ≠ [] ∧ s.all (fun c ↦ !isBlank c) = true := by decide
  obtain ⟨hne, hword⟩ := hspecials _ h
  refine ⟨fun hnil ↦ hne (by rw [hnil]; rfl), fun c hc ↦ ?_⟩
  by_contra hblank
  rw [Bool.not_eq_false] at hblank
  have hmem : c ∈ asciiLower name := List.mem_map.mpr ⟨c, hc, asciiLowerChar_of_isBlank hblank⟩
  exact absurd (List.all_eq_true.mp hword c hmem) (by simp [hblank])

theorem ofSpecial?_eq_some_iff {x : CronLine} :
    ofSpecial? t = some x ↔ ∃ w r, firstWord t = some (w, r) ∧ asciiLower w ∈ specials ∧
      (∀ c ∈ r, isLineEnd c = false) ∧ x = ⟨.special (asciiLower w), r⟩ := by
  simp only [ofSpecial?, Option.bind_eq_bind, Option.bind_eq_some_iff, Prod.exists]
  refine exists₂_congr fun w r ↦ and_congr_right fun _ ↦ ?_
  by_cases hname : asciiLower w ∈ specials
  · rw [if_pos (by simpa using hname), Option.bind_eq_some_iff, and_iff_right hname]
    constructor
    · rintro ⟨u, hu, ⟨⟩⟩
      obtain ⟨hends, rfl⟩ := command?_eq_some_iff.mp hu
      exact ⟨hends, rfl⟩
    · rintro ⟨hends, rfl⟩
      exact ⟨r, command?_eq_some_iff.mpr ⟨hends, rfl⟩, rfl⟩
  · rw [if_neg (by simpa using hname)]
    exact ⟨nofun, fun h ↦ absurd h.1 hname⟩

theorem ofFields?_eq_some_iff {x : CronLine} :
    ofFields? t = some x ↔ ∃ minute hour dayOfMonth month dayOfWeek r,
      firstWords 5 t = some ([minute, hour, dayOfMonth, month, dayOfWeek], r) ∧
        (∀ c ∈ r, isLineEnd c = false) ∧ x = ⟨.fields minute hour dayOfMonth month dayOfWeek, r⟩ := by
  simp only [ofFields?, Option.bind_eq_bind, Option.bind_eq_some_iff, Prod.exists, command?_eq_some_iff,
    firstWords_cons_eq_some_iff]
  constructor
  · rintro ⟨w₁, t₁, h₁, w₂, t₂, h₂, w₃, t₃, h₃, w₄, t₄, h₄, w₅, t₅, h₅, r, ⟨hends, rfl⟩, ⟨⟩⟩
    exact ⟨w₁, w₂, w₃, w₄, w₅, r, ⟨t₁, h₁, t₂, h₂, t₃, h₃, t₄, h₄, r, h₅, rfl⟩, hends, rfl⟩
  · rintro ⟨w₁, w₂, w₃, w₄, w₅, r, ⟨t₁, h₁, t₂, h₂, t₃, h₃, t₄, h₄, _, h₅, ⟨⟩⟩, hends, rfl⟩
    exact ⟨w₁, t₁, h₁, w₂, t₂, h₂, w₃, t₃, h₃, w₄, t₄, h₄, w₅, r, h₅, r, ⟨hends, rfl⟩, rfl⟩

theorem isNamedJob_iff (ht : IsTrimmed t) : (∃ x, ofSpecial? t = some x) ↔ IsNamedJob t := by
  constructor
  · rintro ⟨x, hx⟩
    obtain ⟨w, r, h, hname, hends, -⟩ := ofSpecial?_eq_some_iff.mp hx
    obtain ⟨g, -, hg, rfl, -⟩ := exists_of_firstWord h
    exact ⟨w, g, r, hname, hg, ⟨ne_nil_of_gap ht hg, hends⟩, rfl⟩
  · rintro ⟨name, gap, command, hname, hgap, hcommand, rfl⟩
    exact ⟨_, ofSpecial?_eq_some_iff.mpr ⟨name, _, firstWord_append (isWord_of_mem_specials hname) hgap command,
      hname, hcommand.oneLine_dropWhile, rfl⟩⟩

theorem isTimedJob_iff (ht : IsTrimmed t) : (∃ x, ofFields? t = some x) ↔ IsTimedJob t := by
  constructor
  · rintro ⟨x, hx⟩
    obtain ⟨_, _, _, _, _, r, h, hends, -⟩ := ofFields?_eq_some_iff.mp hx
    obtain ⟨fields, hlength, hfields, rfl⟩ := exists_of_firstWords h
    obtain rfl | ⟨front, last, rfl⟩ := List.eq_nil_or_concat fields
    · cases hlength
    · have hrest : r ≠ [] := by
        have hwhole : IsTrimmed ((front.flatMap fun f ↦ f.1 ++ f.2) ++ last.1 ++ last.2 ++ r) := by
          simpa using ht
        exact ne_nil_of_gap hwhole (hfields last (by simp)).2
      exact ⟨_, r, ⟨hlength, hfields⟩, ⟨hrest, hends⟩, rfl⟩
  · rintro ⟨fields, command, ⟨hlength, hfields⟩, hcommand, rfl⟩
    have hne : fields ≠ [] := List.ne_nil_of_length_eq_add_one hlength
    have h := hlength ▸ firstWords_append hne hfields command
    match hws : fields.map Prod.fst, length_of_firstWords h with
    | [w₁, w₂, w₃, w₄, w₅], _ =>
      exact ⟨_, ofFields?_eq_some_iff.mpr ⟨w₁, w₂, w₃, w₄, w₅, _, hws ▸ h, hcommand.oneLine_dropWhile, rfl⟩⟩

/-- Exactly the cron lines are read. -/
theorem exists_ofText?_iff (ht : IsTrimmed t) : (∃ x, ofText? t = some x) ↔ IsCronLine t := by
  rw [ofText?, trim_eq_self_iff.mpr ht, IsCronLine]
  split
  · exact isNamedJob_iff ht
  · exact isTimedJob_iff ht

end CronLine

end Saltern
