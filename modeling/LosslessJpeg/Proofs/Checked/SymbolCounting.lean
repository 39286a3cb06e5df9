import LosslessJpeg.Proofs.Checked.Basic
import LosslessJpeg.Proofs.Scan.SymbolCounting

set_option autoImplicit false

/-!
Counting symbols with a check, before each step, that the counter has room for one more. The
pass comes to a fault exactly if some symbol occurs more often than 32 bits can tell; else
every counter tells how often its symbol occurs.
-/

namespace LosslessJpeg

open SymbolCounts (Same)

def Token.occurrences (token : Token) (tokens : List Token) : Nat :=
  tokens.countP (Same · token)

namespace Checked

def countToken (counts : SymbolCounts) (token : Token) : Checked CodecError SymbolCounts := do
  fits 32 ((counts.frequency token).toNat + 1)
  pure (counts.add token)

def countTokens (tokens : Array Token) : Checked CodecError SymbolCounts :=
  tokens.foldlM countToken SymbolCounts.zero

structure Tallies (counts : SymbolCounts) (tokens : List Token) : Prop where
  complete : counts.Complete
  exact : ∀ token, (counts.frequency token).toNat = token.occurrences tokens

private theorem tallies_zero : Tallies SymbolCounts.zero [] where
  complete := SymbolCounts.complete_zero
  exact token := congrArg UInt32.toNat (SymbolCounts.frequency_ofTokens #[] token)

variable {counts : SymbolCounts} {before : List Token}

private theorem occurrences_append_singleton (token other : Token) (tokens : List Token) :
    other.occurrences (tokens ++ [token]) =
      other.occurrences tokens + if Same token other then 1 else 0 := by
  unfold Token.occurrences
  rw [List.countP_append, List.countP_singleton]
  by_cases same : Same token other
  · rw [if_pos same, if_pos (decide_eq_true same)]
  · rw [if_neg same, if_neg (by simpa using same)]

private theorem occurrences_of_same {token other : Token} (same : Same token other)
    (tokens : List Token) : token.occurrences tokens = other.occurrences tokens := by
  obtain ⟨sameClass, sameTable, sameSymbol⟩ := same
  apply List.countP_congr
  intro counted _
  rw [decide_eq_true_iff, decide_eq_true_iff, Same, Same, sameClass, sameTable, sameSymbol]

private theorem Tallies.add (tallies : Tallies counts before) {token : Token}
    (room : token.occurrences before + 1 < 2 ^ 32) :
    Tallies (counts.add token) (before ++ [token]) where
  complete := tallies.complete.add token
  exact other := by
    rw [SymbolCounts.frequency_add tallies.complete, occurrences_append_singleton,
      UInt32.toNat_add, tallies.exact]
    by_cases same : Same token other
    · rw [occurrences_of_same same] at room
      rw [if_pos same, if_pos same]
      exact Nat.mod_eq_of_lt room
    · rw [if_neg same, if_neg same, ← tallies.exact]
      exact Nat.mod_eq_of_lt (counts.frequency other).toNat_lt

/-- A run over more tokens either counts them all or stops at one that occurs too often. -/
private theorem Tallies.foldlM (tallies : Tallies counts before) (tokens : List Token) :
    (tokens.foldlM countToken counts = .ok (tokens.foldl SymbolCounts.add counts) ∧
        Tallies (tokens.foldl SymbolCounts.add counts) (before ++ tokens)) ∨
      (tokens.foldlM countToken counts = .error (.fault .overflow) ∧
        ∃ token ∈ tokens, 2 ^ 32 ≤ token.occurrences (before ++ tokens)) := by
  induction tokens generalizing counts before with
  | nil =>
      rw [List.append_nil]
      exact .inl ⟨rfl, tallies⟩
  | cons token rest inductionHypothesis =>
      rw [List.foldlM_cons, countToken, tallies.exact, List.append_cons]
      by_cases room : token.occurrences before + 1 < 2 ^ 32
      · rw [bind_of_ok (fits_of_lt room)]
        rcases inductionHypothesis (tallies.add room) with counted | ⟨stopped, other, member, many⟩
        · exact .inl counted
        · exact .inr ⟨stopped, other, List.mem_cons_of_mem _ member, many⟩
      · refine .inr ⟨?_, token, List.mem_cons_self, ?_⟩
        · unfold fits require
          rw [if_neg room]
          rfl
        · have here := occurrences_append_singleton token token before
          rw [if_pos ⟨rfl, rfl, rfl⟩] at here
          unfold Token.occurrences at here room ⊢
          rw [List.countP_append, here]
          omega

/-- Whether counting comes to a fault, and what it gives if it does not. -/
theorem countTokens_cases (tokens : Array Token) :
    (countTokens tokens = .ok (SymbolCounts.ofTokens tokens) ∧
        ∀ token, ((SymbolCounts.ofTokens tokens).frequency token).toNat =
          token.occurrences tokens.toList) ∨
      (countTokens tokens = .error (.fault .overflow) ∧
        ∃ token ∈ tokens.toList, 2 ^ 32 ≤ token.occurrences tokens.toList) := by
  unfold countTokens SymbolCounts.ofTokens
  rw [← Array.foldlM_toList, ← Array.foldl_toList]
  rcases tallies_zero.foldlM tokens.toList with ⟨counted, tallies⟩ | stopped
  · exact .inl ⟨counted, tallies.exact⟩
  · exact .inr stopped

end Checked

end LosslessJpeg
