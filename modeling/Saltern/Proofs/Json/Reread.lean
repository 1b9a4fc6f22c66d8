import Saltern.Proofs.Json.Numbers
import Saltern.Proofs.Json.Strings
import Saltern.Proofs.Table.Sorted

/-!
# Values are read back

A value whose objects hold no key twice is read back from its text. The reader gives one piece of
fuel for every bracket and comma; twice the length of the text is always enough.
-/

namespace Saltern.Json

open Text

/-- A value whose objects hold no key twice, at any depth. -/
inductive Proper : Json → Prop
  | null : Proper .null
  | bool (b : Bool) : Proper (.bool b)
  | num (d : Decimal) : Proper (.num d)
  | str (s : Units) : Proper (.str s)
  | arr {items : List Json} (h : ∀ v ∈ items, Proper v) : Proper (.arr items)
  | obj {members : List (Units × Json)} (hkeys : (members.map Prod.fst).Nodup)
      (h : ∀ m ∈ members, Proper m.2) : Proper (.obj members)

variable {fuel level n m : Nat} {w t r : Text} {c : Char} {v : Json}

/-! ## Blanks -/

theorem skipBlanks_append (hw : ∀ c ∈ w, isBlank c = true) (t : Text) :
    skipBlanks (w ++ t) = skipBlanks t := List.dropWhile_append_of_pos hw

theorem skipBlanks_cons (hc : isBlank c = false) (t : Text) : skipBlanks (c :: t) = c :: t :=
  List.dropWhile_cons_of_neg (by simp [hc])

theorem isBlank_of_mem_indent : ∀ c ∈ indent n, isBlank c = true := by
  intro c hc
  rw [indent, List.mem_replicate] at hc
  rw [hc.2]
  rfl

theorem isBlank_of_mem_newline : ∀ c ∈ ['\n'], isBlank c = true := List.forall_mem_singleton.mpr rfl

theorem isBlank_of_mem_space : ∀ c ∈ [' '], isBlank c = true := List.forall_mem_singleton.mpr rfl

theorem readValue_append (fuel : Nat) (hw : ∀ c ∈ w, isBlank c = true) (t : Text) :
    readValue fuel (w ++ t) = readValue fuel t := by
  cases fuel with
  | zero => rfl
  | succ fuel => rw [readValue, readValue, skipBlanks_append hw]

theorem readItems_append (fuel : Nat) (hw : ∀ c ∈ w, isBlank c = true) (t : Text) :
    readItems fuel (w ++ t) = readItems fuel t := by
  cases fuel with
  | zero => rfl
  | succ fuel => rw [readItems, readItems, readValue_append fuel hw]

theorem readMembers_append (fuel : Nat) (hw : ∀ c ∈ w, isBlank c = true) (t : Text) :
    readMembers fuel (w ++ t) = readMembers fuel t := by
  cases fuel with
  | zero => rfl
  | succ fuel => rw [readMembers, readMembers, skipBlanks_append hw]

/-- The closing bracket of a list of lines. -/
theorem skipBlanks_closing (hc : isBlank c = false) (m : Nat) (r : Text) :
    skipBlanks ('\n' :: (indent m ++ c :: r)) = c :: r := by
  rw [← List.singleton_append, skipBlanks_append isBlank_of_mem_newline,
    skipBlanks_append isBlank_of_mem_indent, skipBlanks_cons hc]

/-! ## Lines between brackets -/

/-- Lines one level further in, with commas between them. -/
def laidOut (n : Nat) (lines : List Text) : Text := joinWith [',', '\n'] (lines.map fun l ↦ indent n ++ l)

theorem laidOut_singleton (n : Nat) (l : Text) : laidOut n [l] = indent n ++ l := rfl

theorem laidOut_cons_cons (n : Nat) (l l' : Text) (ls : List Text) :
    laidOut n (l :: l' :: ls) = indent n ++ l ++ ',' :: '\n' :: laidOut n (l' :: ls) := by
  simp [laidOut]

theorem enclosed_of_ne_nil {a b : Char} {ls : List Text} (h : ls ≠ []) :
    enclosed a b level ls = a :: '\n' :: (laidOut (level + 1) ls ++ '\n' :: (indent level ++ [b])) := by
  rw [enclosed, if_neg (by simpa using h), laidOut]
  simp

theorem endsNumber_cons (hc : c.isDigit = false ∧ c ≠ '.' ∧ c ≠ 'e' ∧ c ≠ 'E') (r : Text) :
    EndsNumber (c :: r) := by
  rintro d ⟨rfl⟩
  exact hc

theorem printItems_ne_nil {items : List Json} (h : items ≠ []) : printItems level items ≠ [] := by
  cases items with
  | nil => exact absurd rfl h
  | cons v items => nofun

theorem printMembers_ne_nil {members : List (Units × Json)} (h : members ≠ []) :
    printMembers level members ≠ [] := by
  cases members with
  | nil => exact absurd rfl h
  | cons e members => nofun

theorem exists_printDecimal_eq_cons (d : Decimal) :
    ∃ c s, printDecimal d = c :: s ∧ (c = '-' ∨ c.isDigit = true) := by
  obtain ⟨c, s, hc, hdigit⟩ := exists_numeral_eq_cons d.digits
  rw [printDecimal, hc]
  cases d.negative with
  | true => exact ⟨'-', _, rfl, .inl rfl⟩
  | false => exact ⟨c, _, rfl, .inr hdigit⟩

/-- No value starts with a blank or with a closing bracket. -/
theorem exists_print_eq_cons (level : Nat) (v : Json) :
    ∃ c s, print level v = c :: s ∧ isBlank c = false ∧ c ≠ ']' := by
  cases v with
  | null => exact ⟨_, _, rfl, rfl, by decide⟩
  | bool b => cases b <;> exact ⟨_, _, rfl, rfl, by decide⟩
  | str s => exact ⟨_, _, rfl, rfl, by decide⟩
  | num d =>
      obtain ⟨c, s, hc, hnumber⟩ := exists_printDecimal_eq_cons d
      refine ⟨c, s, hc, ?_, ?_⟩
      · rcases hnumber with rfl | hdigit
        · rfl
        · by_contra hblank
          simp only [isBlank, Bool.not_eq_false, Bool.or_eq_true, decide_eq_true_eq] at hblank
          rcases hblank with ((rfl | rfl) | rfl) | rfl <;> cases hdigit
      · rintro rfl
        rcases hnumber with h | h <;> cases h
  | arr items =>
      rw [print, enclosed]
      split <;> exact ⟨_, _, rfl, rfl, by decide⟩
  | obj members =>
      rw [print, enclosed]
      split <;> exact ⟨_, _, rfl, rfl, by decide⟩

/-! ## Members as they come -/

theorem write_of_not_mem {k : Units} {es : List (Units × Json)} (h : k ∉ es.map Prod.fst) :
    Table.write k v es = es ++ [(k, v)] := by
  induction es with
  | nil => rfl
  | cons e es ih =>
      rw [List.map_cons, List.mem_cons, not_or] at h
      rw [Table.write, if_neg fun he ↦ h.1 he.symm, ih h.2, List.cons_append]

/-- Members with no key twice are taken as they come. -/
theorem foldl_write_of_nodup {ms : List (Units × Json)} (h : (ms.map Prod.fst).Nodup) :
    ms.foldl (fun es m ↦ Table.write m.1 m.2 es) [] = ms := by
  suffices hall : ∀ es : List (Units × Json), ((es ++ ms).map Prod.fst).Nodup →
      ms.foldl (fun es m ↦ Table.write m.1 m.2 es) es = es ++ ms from hall [] h
  clear h
  induction ms with
  | nil => simp
  | cons e ms ih =>
      intro es h
      have hno : e.1 ∉ es.map Prod.fst := by
        rw [List.map_append, List.map_cons] at h
        exact fun hm ↦ (List.nodup_append.mp h).2.2 _ hm _ List.mem_cons_self rfl
      rw [List.foldl_cons, write_of_not_mem hno, ih, List.append_assoc, List.singleton_append]
      rwa [List.append_assoc, List.singleton_append]

/-! ## Reading back -/

/-- Whether values are read back with some fuel, wherever they stand. -/
def RereadsValue (fuel : Nat) : Prop :=
  ∀ level v r, Proper v → EndsNumber r → 2 * (print level v).length ≤ fuel →
    readValue fuel (print level v ++ r) = some (v, r)

/-- Whether lines of items are, up to the bracket that closes them. -/
def RereadsItems (fuel : Nat) : Prop :=
  ∀ level n m items r, items ≠ [] → (∀ v ∈ items, Proper v) →
    2 * (laidOut n (printItems level items)).length < fuel →
    readItems fuel (laidOut n (printItems level items) ++ '\n' :: (indent m ++ ']' :: r)) = some (items, r)

/-- Whether lines of members are, up to the brace that closes them. -/
def RereadsMembers (fuel : Nat) : Prop :=
  ∀ level n m members r, members ≠ [] → (∀ e ∈ members, Proper e.2) →
    2 * (laidOut n (printMembers level members)).length < fuel →
    readMembers fuel (laidOut n (printMembers level members) ++ '\n' :: (indent m ++ '\x7d' :: r)) =
      some (members, r)

theorem readValue_of_digit {s : Text} (h : skipBlanks t = c :: s) (hc : c = '-' ∨ c.isDigit = true) :
    readValue (fuel + 1) t = (readDecimal (c :: s)).map fun p ↦ (.num p.1, p.2) := by
  rw [readValue, h]
  split
  case h_7 => rfl
  all_goals
    next heq =>
    obtain ⟨rfl, -⟩ := List.cons.inj heq
    rcases hc with hc | hc <;> cases hc

theorem readValue_of_quote {s : Text} (h : skipBlanks t = '"' :: s) :
    readValue (fuel + 1) t = (readString s).map fun p ↦ (.str p.1, p.2) := by
  rw [readValue, h]
  rfl

theorem readValue_of_bracket {s s' : Text} (h : skipBlanks t = '[' :: s) (hs : skipBlanks s = c :: s')
    (hc : c ≠ ']') : readValue (fuel + 1) t = (readItems fuel s).map fun p ↦ (.arr p.1, p.2) := by
  simp only [readValue, h]
  rw [hs]
  split
  · next heq =>
    obtain ⟨rfl, -⟩ := List.cons.inj heq
    exact absurd rfl hc
  · rfl

theorem readValue_of_brace {s s' : Text} (h : skipBlanks t = '\x7b' :: s) (hs : skipBlanks s = c :: s')
    (hc : c ≠ '\x7d') :
    readValue (fuel + 1) t =
      (readMembers fuel s).map fun p ↦ (.obj (p.1.foldl (fun es m ↦ Table.write m.1 m.2 es) []), p.2) := by
  simp only [readValue, h]
  rw [hs]
  split
  · next heq =>
    obtain ⟨rfl, -⟩ := List.cons.inj heq
    exact absurd rfl hc
  · rfl

/-- The first thing behind an opening bracket is what its first line starts with. -/
theorem skipBlanks_laidOut {l s : Text} (h : l = c :: s) (hc : isBlank c = false) (n : Nat)
    (ls : List Text) (r : Text) : ∃ s', skipBlanks ('\n' :: (laidOut n (l :: ls) ++ r)) = c :: s' := by
  subst h
  obtain ⟨rest, hrest⟩ : ∃ rest, laidOut n ((c :: s) :: ls) = indent n ++ c :: rest := by
    cases ls with
    | nil => exact ⟨s, laidOut_singleton n _⟩
    | cons l ls => exact ⟨s ++ ',' :: '\n' :: laidOut n (l :: ls), by rw [laidOut_cons_cons]; simp⟩
  refine ⟨rest ++ r, ?_⟩
  rw [hrest, ← List.singleton_append, skipBlanks_append isBlank_of_mem_newline, List.append_assoc,
    skipBlanks_append isBlank_of_mem_indent, List.cons_append, skipBlanks_cons hc]

theorem rereadsValue_succ (hi : RereadsItems fuel) (hm : RereadsMembers fuel) : RereadsValue (fuel + 1) := by
  intro level v r hv hr hfuel
  obtain ⟨c, s, hc, hblank, -⟩ := exists_print_eq_cons level v
  have hskip : skipBlanks (print level v ++ r) = c :: (s ++ r) := by
    rw [hc, List.cons_append, skipBlanks_cons hblank]
  cases hv with
  | null => rfl
  | bool b => cases b <;> rfl
  | num d =>
      obtain ⟨c', s', hc', hnumber⟩ := exists_printDecimal_eq_cons d
      obtain ⟨rfl, rfl⟩ := List.cons.inj (hc'.symm.trans hc)
      rw [readValue_of_digit hskip hnumber, ← List.cons_append, ← hc', readDecimal_printDecimal d hr]
      rfl
  | str x =>
      obtain ⟨body, hbody, hread⟩ := readString_quote x r
      have hskip : skipBlanks (print level (.str x) ++ r) = '"' :: body := by
        rw [print, hbody, skipBlanks_cons rfl]
      rw [readValue_of_quote hskip, hread]
      rfl
  | @arr items h =>
      cases items with
      | nil => rfl
      | cons v rest =>
          rw [print, enclosed_of_ne_nil (printItems_ne_nil (List.cons_ne_nil v rest))] at hfuel ⊢
          simp only [List.length_cons, List.length_append] at hfuel
          obtain ⟨d, s, hd, hdblank, hdne⟩ := exists_print_eq_cons (level + 1) v
          obtain ⟨s', hs'⟩ := skipBlanks_laidOut hd hdblank (level + 1) (printItems (level + 1) rest)
            ('\n' :: (indent level ++ ']' :: r))
          have hlines : printItems (level + 1) (v :: rest) =
              print (level + 1) v :: printItems (level + 1) rest := rfl
          rw [← hlines] at hs'
          have hread := hi (level + 1) (level + 1) level (v :: rest) r (List.cons_ne_nil v rest) h (by omega)
          rw [List.cons_append, List.cons_append, List.append_assoc, List.cons_append, List.append_assoc,
            List.singleton_append, readValue_of_bracket (skipBlanks_cons rfl _) hs' hdne,
            ← List.singleton_append, readItems_append _ isBlank_of_mem_newline, hread]
          rfl
  | @obj members hkeys h =>
      cases members with
      | nil => rfl
      | cons e rest =>
          rw [print, enclosed_of_ne_nil (printMembers_ne_nil (List.cons_ne_nil e rest))] at hfuel ⊢
          simp only [List.length_cons, List.length_append] at hfuel
          obtain ⟨k, v⟩ := e
          have hlines : printMembers (level + 1) ((k, v) :: rest) =
              (quote k ++ ':' :: ' ' :: print (level + 1) v) :: printMembers (level + 1) rest := rfl
          have hquote : quote k ++ ':' :: ' ' :: print (level + 1) v =
              '"' :: (k.pieces.flatMap escapePiece ++ ['"'] ++ ':' :: ' ' :: print (level + 1) v) := rfl
          obtain ⟨s', hs'⟩ := skipBlanks_laidOut hquote rfl (level + 1) (printMembers (level + 1) rest)
            ('\n' :: (indent level ++ '\x7d' :: r))
          rw [← hlines] at hs'
          have hread := hm (level + 1) (level + 1) level ((k, v) :: rest) r (List.cons_ne_nil _ rest) h
            (by omega)
          rw [List.cons_append, List.cons_append, List.append_assoc, List.cons_append, List.append_assoc,
            List.singleton_append, readValue_of_brace (skipBlanks_cons rfl _) hs' (by decide),
            ← List.singleton_append, readMembers_append _ isBlank_of_mem_newline, hread]
          exact congrArg (fun ms ↦ some (Json.obj ms, r)) (foldl_write_of_nodup hkeys)

theorem readItems_of_comma {s : Text} (h : readValue fuel t = some (v, r)) (hr : skipBlanks r = ',' :: s) :
    readItems (fuel + 1) t = (readItems fuel s).map fun p ↦ (v :: p.1, p.2) := by
  rw [readItems, h]
  dsimp only
  rw [hr]
  rfl

theorem readItems_of_bracket {s : Text} (h : readValue fuel t = some (v, r)) (hr : skipBlanks r = ']' :: s) :
    readItems (fuel + 1) t = some ([v], s) := by
  rw [readItems, h]
  dsimp only
  rw [hr]
  rfl

/-- Items are read one after the other, each up to its comma or the closing bracket. -/
theorem rereadsItems_succ (hv : RereadsValue fuel) (hi : RereadsItems fuel) : RereadsItems (fuel + 1) := by
  intro level n m items r hne hitems hfuel
  cases items with
  | nil => exact absurd rfl hne
  | cons v rest =>
      obtain ⟨hhead, htail⟩ := List.forall_mem_cons.mp hitems
      cases rest with
      | nil =>
          rw [printItems, printItems, laidOut_singleton] at hfuel ⊢
          rw [List.length_append] at hfuel
          have hends : EndsNumber ('\n' :: (indent m ++ ']' :: r)) :=
            endsNumber_cons ⟨rfl, by decide, by decide, by decide⟩ _
          have hread := hv level v _ hhead hends (by omega)
          rw [List.append_assoc, readItems_append _ isBlank_of_mem_indent,
            readItems_of_bracket hread (skipBlanks_closing rfl m r)]
      | cons v' rest =>
          have hlines : printItems level (v' :: rest) = print level v' :: printItems level rest := rfl
          rw [printItems, hlines, laidOut_cons_cons, ← hlines] at hfuel ⊢
          simp only [List.length_append, List.length_cons] at hfuel
          have hends : ∀ s, EndsNumber (',' :: s) := endsNumber_cons ⟨rfl, by decide, by decide, by decide⟩
          have hread := fun s ↦ hv level v _ hhead (hends s) (by omega)
          have hnext := hi level n m (v' :: rest) r (List.cons_ne_nil v' rest) htail (by omega)
          rw [List.append_assoc, List.append_assoc, readItems_append _ isBlank_of_mem_indent,
            List.cons_append, readItems_of_comma (hread _) (skipBlanks_cons rfl _), List.cons_append,
            ← List.singleton_append, readItems_append _ isBlank_of_mem_newline, hnext]
          rfl

/-- What is read behind a member: the members after a comma, or nothing but the closing brace. -/
def readFurther (fuel : Nat) (m : Units × Json) (t : Text) : Option (List (Units × Json) × Text) :=
  match skipBlanks t with
  | ',' :: r => (readMembers fuel r).map fun p ↦ (m :: p.1, p.2)
  | '\x7d' :: rest => some ([m], rest)
  | _ => none

/-- A member is read at its key, behind the colon and up to what follows its value. -/
theorem readMembers_of_member {k : Units} (hread : readValue fuel t = some (v, r)) :
    readMembers (fuel + 1) (quote k ++ ':' :: t) = readFurther fuel (k, v) r := by
  obtain ⟨body, hbody, hkey⟩ := readString_quote k (':' :: t)
  rw [readMembers, hbody, skipBlanks_cons rfl]
  split
  · next heq =>
    obtain ⟨-, rfl⟩ := List.cons.inj heq
    rw [hkey]
    dsimp only
    rw [skipBlanks_cons rfl]
    split
    · next heq =>
      obtain ⟨-, rfl⟩ := List.cons.inj heq
      rw [hread]
      rfl
    · next hne => exact absurd rfl (hne t)
  · next hne => exact absurd rfl (hne body)

theorem readFurther_of_comma {m : Units × Json} {s : Text} (h : skipBlanks t = ',' :: s) :
    readFurther fuel m t = (readMembers fuel s).map fun p ↦ (m :: p.1, p.2) := by
  rw [readFurther, h]
  rfl

theorem readFurther_of_brace {m : Units × Json} {s : Text} (h : skipBlanks t = '\x7d' :: s) :
    readFurther fuel m t = some ([m], s) := by
  rw [readFurther, h]
  rfl

/-- Members are read one after the other, each up to its comma or the closing brace. -/
theorem rereadsMembers_succ (hv : RereadsValue fuel) (hm : RereadsMembers fuel) :
    RereadsMembers (fuel + 1) := by
  intro level n m members r hne hmembers hfuel
  cases members with
  | nil => exact absurd rfl hne
  | cons e rest =>
      obtain ⟨k, v⟩ := e
      obtain ⟨hhead, htail⟩ := List.forall_mem_cons.mp hmembers
      have hvalue : ∀ s, EndsNumber s → 2 * (print level v).length ≤ fuel →
          readValue fuel (' ' :: (print level v ++ s)) = some (v, s) := fun s hs hlen ↦ by
        rw [← List.singleton_append, readValue_append _ isBlank_of_mem_space, hv level v s hhead hs hlen]
      cases rest with
      | nil =>
          rw [printMembers, printMembers, laidOut_singleton] at hfuel ⊢
          simp only [List.length_append, List.length_cons] at hfuel
          have hends : EndsNumber ('\n' :: (indent m ++ '\x7d' :: r)) :=
            endsNumber_cons ⟨rfl, by decide, by decide, by decide⟩ _
          rw [List.append_assoc, readMembers_append _ isBlank_of_mem_indent, List.append_assoc,
            List.cons_append, List.cons_append,
            readMembers_of_member (hvalue _ hends (by omega)),
            readFurther_of_brace (skipBlanks_closing rfl m r)]
      | cons e' rest =>
          obtain ⟨k', v'⟩ := e'
          have hlines : printMembers level ((k', v') :: rest) =
              (quote k' ++ ':' :: ' ' :: print level v') :: printMembers level rest := rfl
          rw [printMembers, hlines, laidOut_cons_cons, ← hlines] at hfuel ⊢
          simp only [List.length_append, List.length_cons] at hfuel
          have hends : ∀ s, EndsNumber (',' :: s) := endsNumber_cons ⟨rfl, by decide, by decide, by decide⟩
          have hnext := hm level n m ((k', v') :: rest) r (List.cons_ne_nil _ rest) htail (by omega)
          rw [List.append_assoc, List.append_assoc, readMembers_append _ isBlank_of_mem_indent,
            List.append_assoc, List.cons_append, List.cons_append, List.cons_append,
            readMembers_of_member (hvalue _ (hends _) (by omega)),
            readFurther_of_comma (skipBlanks_cons rfl _), List.cons_append, ← List.singleton_append,
            readMembers_append _ isBlank_of_mem_newline, hnext]
          rfl

/-- With enough fuel everything is read back. -/
theorem rereads (fuel : Nat) : RereadsValue fuel ∧ RereadsItems fuel ∧ RereadsMembers fuel := by
  induction fuel with
  | zero =>
      refine ⟨fun level v r _ _ hfuel ↦ ?_, nofun, nofun⟩
      obtain ⟨c, s, hc, -⟩ := exists_print_eq_cons level v
      rw [hc] at hfuel
      cases hfuel
  | succ fuel ih =>
      obtain ⟨hv, hi, hm⟩ := ih
      exact ⟨rereadsValue_succ hi hm, rereadsItems_succ hv hi, rereadsMembers_succ hv hm⟩

/-- The text of a value, on a line of its own, spells the value. -/
theorem ofText?_text (hv : Proper v) : ofText? (v.text ++ ['\n']) = some v := by
  have hends : EndsNumber ['\n'] := endsNumber_cons ⟨rfl, by decide, by decide, by decide⟩ []
  have hfuel : 2 * (print 0 v).length ≤ 2 * (v.text ++ ['\n']).length + 2 := by
    rw [text, List.length_append]
    omega
  have hread : readFirst (v.text ++ ['\n']) = some (v, ['\n']) := (rereads _).1 0 v _ hv hends hfuel
  rw [ofText?, hread]
  rfl

end Saltern.Json
