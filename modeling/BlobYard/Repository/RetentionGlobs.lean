/-
The retention glob matcher with its memo.

`glob_at` walks the pattern and the path by their indices and remembers what each pair of
indices came to, so that no pair is worked out twice.

* `globAtMemo` — the walk, with the memo it leaves behind;
* `MemoSound` — a memo that holds what the rest of the pattern means for the rest of the path;
* `globAtMemo_spec` — the walk answers as `globAt` does and keeps its memo sound;
* `globMatchesMemo_eq` — so the memo changes no answer.
-/
import BlobYard.Repository.Lifecycle

namespace BlobYard

/-- What the pairs of a pattern index and an input index visited so far came to. -/
abbrev GlobMemo := ℕ × ℕ → Option Bool

/-- `memo.insert`. -/
def GlobMemo.insert (memo : GlobMemo) (key : ℕ × ℕ) (value : Bool) : GlobMemo := fun other =>
  if other = key then some value else memo other

/-- `first || second`, where the second one goes on with the memo of the first. -/
def GlobMemo.orElse (first : Bool × GlobMemo) (second : GlobMemo → Bool × GlobMemo) :
    Bool × GlobMemo :=
  if first.1 then first else second first.2

/-- `glob_at`.  The indices only grow, and neither grows past its end. -/
def globAtMemo (pattern input : List Char) (patternIndex inputIndex : ℕ) (memo : GlobMemo) :
    Bool × GlobMemo :=
  match memo (patternIndex, inputIndex) with
  | some value => (value, memo)
  | none =>
    let answer : Bool × GlobMemo :=
      if hpattern : patternIndex < pattern.length then
        if pattern[patternIndex] = '*' then
          if pattern[patternIndex + 1]? = some '*' then
            GlobMemo.orElse (globAtMemo pattern input (patternIndex + 2) inputIndex memo)
              fun memo =>
                if hinput : inputIndex < input.length then
                  globAtMemo pattern input patternIndex (inputIndex + 1) memo
                else (false, memo)
          else
            GlobMemo.orElse (globAtMemo pattern input (patternIndex + 1) inputIndex memo)
              fun memo =>
                if hinput : inputIndex < input.length then
                  if input[inputIndex] = '/' then (false, memo)
                  else globAtMemo pattern input patternIndex (inputIndex + 1) memo
                else (false, memo)
        else if hinput : inputIndex < input.length then
          if pattern[patternIndex] = '?' then
            if input[inputIndex] = '/' then (false, memo)
            else globAtMemo pattern input (patternIndex + 1) (inputIndex + 1) memo
          else if input[inputIndex] = pattern[patternIndex] then
            globAtMemo pattern input (patternIndex + 1) (inputIndex + 1) memo
          else (false, memo)
        else (false, memo)
      else (decide (inputIndex = input.length), memo)
    (answer.1, answer.2.insert (patternIndex, inputIndex) answer.1)
termination_by pattern.length - patternIndex + (input.length - inputIndex)

/-- `glob_matches`. -/
def globMatchesMemo (glob value : String) : Bool :=
  (globAtMemo glob.toList value.toList 0 0 fun _ => none).1

/-! ### One place of the pattern -/

theorem globAt_any (pattern input : List Char) :
    globAt ('*' :: '*' :: pattern) input =
      (globAt pattern input ||
        match input with
        | [] => false
        | _ :: rest => globAt ('*' :: '*' :: pattern) rest) := by
  rw [globAt]
  cases input with
  | nil => rw [globStar, Bool.or_false]
  | cons c rest => rw [globStar, Bool.true_and]

theorem globAt_inside {pattern : List Char} (h : pattern.head? ≠ some '*') (input : List Char) :
    globAt ('*' :: pattern) input =
      (globAt pattern input ||
        match input with
        | [] => false
        | c :: rest => c ≠ '/' && globAt ('*' :: pattern) rest) := by
  have hstep : globAt ('*' :: pattern) = globStar (globAt pattern) fun c => c ≠ '/' := by
    rw [globAt]
    rintro rest rfl
    exact h rfl
  rw [hstep]
  cases input with
  | nil => rw [globStar, Bool.or_false]
  | cons c rest => rw [globStar]

theorem globAt_one (pattern : List Char) (c : Char) (input : List Char) :
    globAt ('?' :: pattern) (c :: input) = (c ≠ '/' && globAt pattern input) := by
  rw [globAt]

theorem globAt_letter {character : Char} (hstar : character ≠ '*') (hone : character ≠ '?')
    (pattern : List Char) (c : Char) (input : List Char) :
    globAt (character :: pattern) (c :: input) = (c = character && globAt pattern input) := by
  rw [globAt]
  · rintro _ rfl
    exact absurd rfl hstar
  · rintro rfl
    exact absurd rfl hstar
  · rintro rfl
    exact absurd rfl hone

/-- Past the end only wildcards match. -/
theorem globAt_nil {character : Char} (hstar : character ≠ '*') (pattern : List Char) :
    globAt (character :: pattern) [] = false := by
  by_cases hone : character = '?'
  · subst hone
    rw [globAt]
  · rw [globAt]
    · rintro _ rfl
      exact absurd rfl hstar
    · rintro rfl
      exact absurd rfl hstar
    · rintro rfl
      exact absurd rfl hone

/-! ### The memo -/

section Memo

variable {pattern input : List Char} {memo : GlobMemo}

/-- The memo holds what the rest of the pattern means for the rest of the path, and nothing
about indices that do not exist. -/
def MemoSound (pattern input : List Char) (memo : GlobMemo) : Prop :=
  ∀ patternIndex inputIndex value, memo (patternIndex, inputIndex) = some value →
    patternIndex ≤ pattern.length ∧ inputIndex ≤ input.length ∧
      value = globAt (pattern.drop patternIndex) (input.drop inputIndex)

theorem memoSound_empty : MemoSound pattern input fun _ => none := by
  intro patternIndex inputIndex value h
  cases h

theorem MemoSound.insert (h : MemoSound pattern input memo) {patternIndex inputIndex : ℕ}
    {value : Bool} (hpattern : patternIndex ≤ pattern.length) (hinput : inputIndex ≤ input.length)
    (hvalue : value = globAt (pattern.drop patternIndex) (input.drop inputIndex)) :
    MemoSound pattern input (memo.insert (patternIndex, inputIndex) value) := by
  intro p i other hother
  rw [GlobMemo.insert] at hother
  split at hother
  · rename_i hkey
    obtain ⟨rfl, rfl⟩ := Prod.mk.inj hkey
    obtain rfl := Option.some.inj hother
    exact ⟨hpattern, hinput, hvalue⟩
  · exact h p i other hother

/-- The answer is the value, and the memo left behind is sound. -/
def Says (pattern input : List Char) (value : Bool) (answer : Bool × GlobMemo) : Prop :=
  answer.1 = value ∧ MemoSound pattern input answer.2

theorem says_or {a b : Bool} {first : Bool × GlobMemo} {second : GlobMemo → Bool × GlobMemo}
    (hfirst : Says pattern input a first)
    (hsecond : ∀ memo, MemoSound pattern input memo → Says pattern input b (second memo)) :
    Says pattern input (a || b) (GlobMemo.orElse first second) := by
  obtain ⟨hvalue, hmemo⟩ := hfirst
  rw [GlobMemo.orElse]
  split
  · rename_i hyes
    exact ⟨by rw [← hvalue, hyes, Bool.true_or], hmemo⟩
  · rename_i hno
    rw [← hvalue, Bool.eq_false_of_not_eq_true hno, Bool.false_or]
    exact hsecond first.2 hmemo

theorem says_false (h : MemoSound pattern input memo) : Says pattern input false (false, memo) :=
  ⟨rfl, h⟩

/-- Nothing is left of the path. -/
theorem drop_of_end {inputIndex : ℕ} (h : ¬inputIndex < input.length) :
    input.drop inputIndex = [] :=
  List.drop_eq_nil_of_le (Nat.le_of_not_lt h)

/-- The walk answers as `globAt` does and keeps its memo sound. -/
theorem globAtMemo_spec (h : MemoSound pattern input memo) {patternIndex inputIndex : ℕ}
    (hpattern : patternIndex ≤ pattern.length) (hinput : inputIndex ≤ input.length) :
    Says pattern input (globAt (pattern.drop patternIndex) (input.drop inputIndex))
      (globAtMemo pattern input patternIndex inputIndex memo) := by
  induction hn : pattern.length - patternIndex + (input.length - inputIndex)
    using Nat.strong_induction_on generalizing patternIndex inputIndex memo with
  | _ n ih =>
  subst hn
  rw [globAtMemo]
  split
  · rename_i value hvalue
    exact ⟨(h _ _ _ hvalue).2.2, h⟩
  · suffices hanswer : ∀ answer, Says pattern input
        (globAt (pattern.drop patternIndex) (input.drop inputIndex)) answer →
        Says pattern input (globAt (pattern.drop patternIndex) (input.drop inputIndex))
          (answer.1, answer.2.insert (patternIndex, inputIndex) answer.1) by
      apply hanswer
      clear hanswer
      split
      · rename_i hlt
        have hdrop := List.drop_eq_getElem_cons hlt
        split
        · rename_i hstar
          rw [hstar] at hdrop
          split
          -- `**` stands for nothing or for one more character
          · rename_i hnext
            obtain ⟨hlt', hnext⟩ := List.getElem?_eq_some_iff.mp hnext
            have hrest := List.drop_eq_getElem_cons hlt'
            rw [hnext] at hrest
            rw [hdrop, hrest, globAt_any]
            refine says_or (ih _ (by omega) h hlt' hinput rfl) fun memo hmemo => ?_
            by_cases hin : inputIndex < input.length
            · rw [dif_pos hin, List.drop_eq_getElem_cons hin, ← hrest, ← hdrop]
              exact ih _ (by omega) hmemo hpattern hin rfl
            · rw [dif_neg hin, drop_of_end hin]
              exact says_false hmemo
          -- `*` stands for nothing or for one more character that is no slash
          · rename_i hnext
            have hhead : (pattern.drop (patternIndex + 1)).head? ≠ some '*' := by
              rwa [List.head?_drop]
            rw [hdrop, globAt_inside hhead]
            refine says_or (ih _ (by omega) h hlt hinput rfl) fun memo hmemo => ?_
            by_cases hin : inputIndex < input.length
            · rw [dif_pos hin, List.drop_eq_getElem_cons hin, ← hdrop]
              by_cases hslash : input[inputIndex] = '/'
              · rw [if_pos hslash, hslash]
                exact says_false hmemo
              · rw [if_neg hslash]
                simp only [ne_eq, hslash, not_false_eq_true, decide_true, Bool.true_and]
                exact ih _ (by omega) hmemo hpattern hin rfl
            · rw [dif_neg hin, drop_of_end hin]
              exact says_false hmemo
        · rename_i hstar
          split
          · rename_i hin
            rw [hdrop, List.drop_eq_getElem_cons hin]
            have hlater : Says pattern input
                (globAt (pattern.drop (patternIndex + 1)) (input.drop (inputIndex + 1)))
                (globAtMemo pattern input (patternIndex + 1) (inputIndex + 1) memo) :=
              ih _ (by omega) h hlt hin rfl
            split
            · rename_i hone
              rw [hone, globAt_one]
              split
              · rename_i hslash
                rw [hslash]
                exact says_false h
              · rename_i hslash
                simp only [ne_eq, hslash, not_false_eq_true, decide_true, Bool.true_and]
                exact hlater
            · rename_i hone
              rw [globAt_letter hstar hone]
              split
              · rename_i hsame
                rw [decide_eq_true hsame, Bool.true_and]
                exact hlater
              · rename_i hother
                rw [decide_eq_false hother, Bool.false_and]
                exact says_false h
          · rename_i hend
            rw [hdrop, drop_of_end hend, globAt_nil hstar]
            exact says_false h
      · rename_i hend
        rw [List.drop_eq_nil_of_le (Nat.le_of_not_lt hend), globAt]
        refine ⟨?_, h⟩
        rw [Bool.eq_iff_iff, decide_eq_true_eq, List.isEmpty_iff, List.drop_eq_nil_iff]
        omega
    rintro ⟨value, memo'⟩ ⟨hvalue, hmemo⟩
    exact ⟨hvalue, hmemo.insert hpattern hinput hvalue⟩

end Memo

/-- The memo changes no answer. -/
theorem globMatchesMemo_eq (glob value : String) :
    globMatchesMemo glob value = globMatches glob value := by
  have hempty : MemoSound glob.toList value.toList fun _ => none := memoSound_empty
  have h := (globAtMemo_spec hempty (Nat.zero_le _) (Nat.zero_le _)).1
  rwa [List.drop_zero, List.drop_zero] at h

end BlobYard
