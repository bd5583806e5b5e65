import PiTools.Library.Replace

/-
This file cuts a text in two and says when the matches of a finder in the whole
text are those in its parts.
-/

namespace Library

variable {Letter : Type}

/-- The replacement from a position on. -/
def replaceFrom (find : Finder Letter) (mark : List Letter) (previous : Option Letter)
    (text : List Letter) : List Letter := markPieces mark (pieces find previous 0 text)

/-- The letter in front of what follows a text. -/
def lastOf (previous : Option Letter) (text : List Letter) : Option Letter := text.getLast?.or previous

@[simp] theorem lastOf_nil (previous : Option Letter) : lastOf previous [] = previous := rfl

@[simp] theorem lastOf_concat (previous : Option Letter) (text : List Letter) (c : Letter) :
    lastOf previous (text ++ [c]) = some c := by
  simp [lastOf]

theorem lastOf_append (previous : Option Letter) (first second : List Letter) :
    lastOf previous (first ++ second) = lastOf (lastOf previous first) second := by
  rw [lastOf, lastOf, lastOf, List.getLast?_append, Option.or_assoc]

theorem lastOf_cons (previous : Option Letter) (c : Letter) (text : List Letter) :
    lastOf previous (c :: text) = lastOf (some c) text := by
  rw [← List.singleton_append, lastOf_append]
  rfl

section

variable {find : Finder Letter} {mark : List Letter} {previous : Option Letter}

theorem replaceAll_eq (text : List Letter) : replaceAll find mark text = replaceFrom find mark none text := rfl

@[simp] theorem replaceFrom_nil : replaceFrom find mark previous [] = [] := rfl

/-- The skipped letters do not matter. -/
theorem markPieces_skip (skip : Nat) (text : List Letter) :
    markPieces mark (pieces find previous skip text) =
      replaceFrom find mark (lastOf previous (text.take skip)) (text.drop skip) := by
  induction skip generalizing previous text with
  | zero => rfl
  | succ skip ih =>
      cases text with
      | nil => rfl
      | cons c rest =>
          rw [pieces, ih, List.take_succ_cons, List.drop_succ_cons, lastOf_cons]

theorem replaceFrom_none {c : Letter} {rest : List Letter} (found : find previous (c :: rest) = none) :
    replaceFrom find mark previous (c :: rest) = c :: replaceFrom find mark (some c) rest := by
  rw [replaceFrom, pieces, found]
  rfl

/-- A match is kept in part, and the mark stands for the rest of it. -/
theorem replaceFrom_some (sound : find.Sound) {text : List Letter} {kept replaced : Nat}
    (found : find previous text = some (kept, replaced)) :
    replaceFrom find mark previous text = text.take kept ++ (mark ++
      replaceFrom find mark (lastOf previous (text.take (kept + replaced))) (text.drop (kept + replaced))) := by
  obtain ⟨positive, inside⟩ := sound _ _ _ _ found
  cases text with
  | nil =>
      rw [List.length_nil] at inside
      omega
  | cons c rest =>
      have nonempty : ((c :: rest).drop kept).take replaced ≠ [] := by
        rw [← List.length_pos_iff, List.length_take, List.length_drop]
        omega
      obtain ⟨count, whole⟩ : ∃ count, kept + replaced = count + 1 := ⟨kept + replaced - 1, by omega⟩
      rw [replaceFrom, pieces, found]
      change markPieces mark (_ :: pieces find (some c) (kept + replaced - 1) rest) = _
      rw [markPieces, List.flatMap_cons, if_neg (by simpa using nonempty), List.append_assoc]
      change _ ++ (_ ++ markPieces mark _) = _
      rw [markPieces_skip, whole, Nat.add_sub_cancel, List.take_succ_cons, List.drop_succ_cons, lastOf_cons]

/-- A cut is met between two matches, or there is a first position that crosses it. -/
theorem replaceFrom_cut (sound : find.Sound) {Behind : List Letter → Prop}
    {crossing : Option Letter → List Letter → Prop}
    (agree : ∀ other text back, text ≠ [] → ¬ crossing other text → Behind back →
      find other (text ++ back) = find other text) (front : List Letter) (previous : Option Letter) :
    (∀ back, Behind back → replaceFrom find mark previous (front ++ back) =
        replaceFrom find mark previous front ++ replaceFrom find mark (lastOf previous front) back) ∨
      ∃ shown other text, text ≠ [] ∧ text <:+ front ∧ crossing other text ∧
        replaceFrom find mark previous front = shown ++ replaceFrom find mark other text ∧
          ∀ back, Behind back → replaceFrom find mark previous (front ++ back) =
            shown ++ replaceFrom find mark other (text ++ back) := by
  induction length : front.length using Nat.strong_induction_on generalizing front previous with
  | _ size ih =>
      subst length
      by_cases crosses : front ≠ [] ∧ crossing previous front
      · exact .inr ⟨[], previous, front, crosses.1, List.suffix_rfl, crosses.2, rfl, fun _ _ => rfl⟩
      cases front with
      | nil => exact .inl fun _ _ => rfl
      | cons c rest =>
          have here (back : List Letter) (behind : Behind back) :
              find previous (c :: rest ++ back) = find previous (c :: rest) :=
            agree previous (c :: rest) back (List.cons_ne_nil c rest)
              (fun crossed => crosses ⟨List.cons_ne_nil c rest, crossed⟩) behind
          cases found : find previous (c :: rest) with
          | none =>
              have step (back : List Letter) (behind : Behind back) :
                  replaceFrom find mark previous (c :: rest ++ back) =
                    c :: replaceFrom find mark (some c) (rest ++ back) :=
                replaceFrom_none ((here back behind).trans found)
              rcases ih rest.length (by simp) rest (some c) rfl with
                whole | ⟨shown, other, text, filled, suffix, crossed, alone, whole⟩
              · refine .inl fun back behind => ?_
                rw [step back behind, whole back behind, replaceFrom_none found, lastOf_cons, List.cons_append]
              · refine .inr ⟨c :: shown, other, text, filled, suffix.trans (List.suffix_cons c rest), crossed, ?_, ?_⟩
                · rw [replaceFrom_none found, alone, List.cons_append]
                · intro back behind
                  rw [step back behind, whole back behind, List.cons_append]
          | some lengths =>
              obtain ⟨kept, replaced⟩ := lengths
              obtain ⟨positive, inside⟩ := sound _ _ _ _ found
              have shorter : ((c :: rest).drop (kept + replaced)).length < (c :: rest).length := by
                rw [List.length_drop]
                omega
              have step (back : List Letter) (behind : Behind back) :
                  replaceFrom find mark previous (c :: rest ++ back) = (c :: rest).take kept ++ (mark ++
                    replaceFrom find mark (lastOf previous ((c :: rest).take (kept + replaced)))
                      ((c :: rest).drop (kept + replaced) ++ back)) := by
                rw [replaceFrom_some sound ((here back behind).trans found),
                  List.take_append_of_le_length (by omega), List.take_append_of_le_length inside,
                  List.drop_append_of_le_length inside]
              have last : lastOf (lastOf previous ((c :: rest).take (kept + replaced)))
                  ((c :: rest).drop (kept + replaced)) = lastOf previous (c :: rest) := by
                rw [← lastOf_append, List.take_append_drop]
              rcases ih _ shorter _ (lastOf previous ((c :: rest).take (kept + replaced))) rfl with
                whole | ⟨shown, other, text, filled, suffix, crossed, alone, whole⟩
              · refine .inl fun back behind => ?_
                rw [step back behind, whole back behind, replaceFrom_some sound found, last]
                simp only [List.append_assoc]
              · refine .inr ⟨(c :: rest).take kept ++ (mark ++ shown), other, text, filled,
                  suffix.trans (List.drop_suffix _ _), crossed, ?_, ?_⟩
                · rw [replaceFrom_some sound found, alone]
                  simp only [List.append_assoc]
                · intro back behind
                  rw [step back behind, whole back behind]
                  simp only [List.append_assoc]

/-- A text passes unchanged, whatever stands behind it. -/
def Finder.Passes (find : Finder Letter) (text : List Letter) : Prop :=
  ∀ (mark : List Letter) (previous : Option Letter) (back : List Letter), ∃ last,
    replaceFrom find mark previous (text ++ back) = text ++ replaceFrom find mark last back

theorem Finder.Passes.nil : find.Passes [] := fun _ previous _ => ⟨previous, rfl⟩

theorem Finder.Passes.append {first second : List Letter} (passes : find.Passes first)
    (then_ : find.Passes second) : find.Passes (first ++ second) := by
  intro mark previous back
  obtain ⟨middle, start⟩ := passes mark previous (second ++ back)
  obtain ⟨last, rest⟩ := then_ mark middle back
  refine ⟨last, ?_⟩
  rw [List.append_assoc, start, rest, List.append_assoc]

theorem Finder.Passes.single {c : Letter} (inert : ∀ previous rest, find previous (c :: rest) = none) :
    find.Passes [c] := by
  intro mark previous back
  exact ⟨some c, replaceFrom_none (inert previous back)⟩

end

end Library
