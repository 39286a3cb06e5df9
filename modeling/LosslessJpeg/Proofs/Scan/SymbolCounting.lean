import LosslessJpeg.Proofs.Scan.ScanTokens
import LosslessJpeg.Proofs.Vectors
import LosslessJpeg.Scan.Encoder

set_option autoImplicit false

/-!
Counting symbols in words of 32 bits. A count comes out as zero for a symbol that occurs
only if it wraps around, for which a scan of one frame has too few blocks.
-/

namespace LosslessJpeg

namespace SymbolCounts

def frequencies (counts : SymbolCounts) : CoefficientClass → Fin 4 → OptimalCode.Frequencies
  | .dc => counts.dcFrequencies
  | .ac => counts.acFrequencies

def frequency (counts : SymbolCounts) (token : Token) : UInt32 :=
  (counts.frequencies token.coefficients token.table).get
    ⟨token.symbol.toNat, token.symbol.toNat_lt⟩

structure Complete (counts : SymbolCounts) : Prop where
  dc : counts.dc.size = 4
  ac : counts.ac.size = 4

theorem complete_zero : zero.Complete where
  dc := rfl
  ac := rfl

theorem Complete.add {counts : SymbolCounts} (complete : counts.Complete) (token : Token) :
    (counts.add token).Complete := by
  unfold SymbolCounts.add
  split
  · exact ⟨Array.size_modify.trans complete.dc, complete.ac⟩
  · exact ⟨complete.dc, Array.size_modify.trans complete.ac⟩

private theorem increment_get (symbol other : UInt8) (frequencies : OptimalCode.Frequencies) :
    (increment symbol frequencies).get ⟨other.toNat, other.toNat_lt⟩ =
      frequencies.get ⟨other.toNat, other.toNat_lt⟩ + if symbol = other then 1 else 0 := by
  have known : frequencies[symbol.toNat]?.getD 0 =
      frequencies.get ⟨symbol.toNat, symbol.toNat_lt⟩ := by
    rw [Vector.getElem?_eq_getElem symbol.toNat_lt]
    rfl
  have entry : (frequencies.setIfInBounds symbol.toNat
      (frequencies.get ⟨symbol.toNat, symbol.toNat_lt⟩ + 1)).get
        ⟨other.toNat, other.toNat_lt⟩ =
          if symbol.toNat = other.toNat then
            frequencies.get ⟨symbol.toNat, symbol.toNat_lt⟩ + 1
          else
            frequencies.get ⟨other.toNat, other.toNat_lt⟩ :=
    Vector.getElem_setIfInBounds other.toNat_lt
  unfold increment
  rw [known]
  refine entry.trans ?_
  by_cases same : symbol = other
  · rw [if_pos (congrArg UInt8.toNat same), if_pos same, same]
  · rw [if_neg fun equal => same (UInt8.toNat_inj.mp equal), if_neg same]
    exact (UInt32.add_zero _).symm

private theorem modify_getD {slots : Array OptimalCode.Frequencies} (full : slots.size = 4)
    (table other : Fin 4) (symbol : UInt8) :
    (slots.modify table.val (increment symbol)).getD other.val (Vector.replicate 256 0) =
      if table = other then increment symbol (slots.getD other.val (Vector.replicate 256 0))
      else slots.getD other.val (Vector.replicate 256 0) := by
  have inside : other.val < slots.size := by omega
  rw [Array.getD_eq_getD_getElem?, Array.getD_eq_getD_getElem?, Array.getElem?_modify,
    Array.getElem?_eq_getElem inside]
  by_cases same : table = other
  · rw [if_pos (congrArg Fin.val same), if_pos same]
    rfl
  · rw [if_neg fun equal => same (Fin.ext equal), if_neg same]

/-- A token counts towards the tokens with its symbol in its table. -/
def Same (token other : Token) : Prop :=
  token.coefficients = other.coefficients ∧ token.table = other.table ∧
    token.symbol = other.symbol

instance (token other : Token) : Decidable (Same token other) :=
  inferInstanceAs (Decidable (_ ∧ _))

theorem frequency_of_same {counts : SymbolCounts} {token other : Token}
    (same : Same token other) : counts.frequency token = counts.frequency other := by
  cases token
  cases other
  obtain ⟨rfl, rfl, rfl⟩ := same
  rfl

private theorem frequency_modify {slots : Array OptimalCode.Frequencies}
    (full : slots.size = 4) (token other : Token) (sameClass : token.coefficients =
      other.coefficients) :
    ((slots.modify token.table.val (increment token.symbol)).getD other.table.val
        (Vector.replicate 256 0)).get ⟨other.symbol.toNat, other.symbol.toNat_lt⟩ =
      (slots.getD other.table.val (Vector.replicate 256 0)).get
          ⟨other.symbol.toNat, other.symbol.toNat_lt⟩ +
        if Same token other then 1 else 0 := by
  rw [modify_getD full]
  by_cases sameTable : token.table = other.table
  · rw [if_pos sameTable, increment_get]
    congr 1
    exact if_congr ⟨fun same => ⟨sameClass, sameTable, same⟩, fun same => same.2.2⟩ rfl rfl
  · rw [if_neg sameTable, if_neg fun same => sameTable same.2.1]
    exact (UInt32.add_zero _).symm

theorem frequency_add {counts : SymbolCounts} (complete : counts.Complete)
    (token other : Token) :
    (counts.add token).frequency other =
      counts.frequency other + if Same token other then 1 else 0 := by
  have apart : token.coefficients ≠ other.coefficients →
      counts.frequency other = counts.frequency other + if Same token other then 1 else 0 := by
    intro different
    rw [if_neg fun same => different same.1]
    exact (UInt32.add_zero _).symm
  unfold frequency at apart ⊢
  cases tokenClass : token.coefficients <;> cases otherClass : other.coefficients
  · rw [add, tokenClass]
    exact frequency_modify complete.dc token other (tokenClass.trans otherClass.symm)
  · rw [add, tokenClass]
    rw [tokenClass, otherClass] at apart
    exact apart nofun
  · rw [add, tokenClass]
    rw [tokenClass, otherClass] at apart
    exact apart nofun
  · rw [add, tokenClass]
    exact frequency_modify complete.ac token other (tokenClass.trans otherClass.symm)

private theorem frequency_foldl {counts : SymbolCounts} (complete : counts.Complete)
    (tokens : List Token) (other : Token) :
    (tokens.foldl add counts).frequency other =
      counts.frequency other + UInt32.ofNat (tokens.countP (Same · other)) := by
  induction tokens generalizing counts with
  | nil => exact (UInt32.add_zero _).symm
  | cons token rest inductionHypothesis =>
      rw [List.foldl_cons, inductionHypothesis (complete.add token),
        frequency_add complete, UInt32.add_assoc, List.countP_cons, UInt32.ofNat_add,
        UInt32.add_comm (UInt32.ofNat _)]
      congr 2
      by_cases same : Same token other
      · rw [if_pos same, if_pos (decide_eq_true same)]
        rfl
      · rw [if_neg same, if_neg (by simpa using same)]
        rfl

private theorem frequency_zero (token : Token) : zero.frequency token = 0 := by
  have slot : ∀ table : Fin 4, (Array.replicate 4 (Vector.replicate 256 (0 : UInt32))).getD
      table.val (Vector.replicate 256 0) = Vector.replicate 256 0 := by
    intro table
    rw [Array.getD_eq_getD_getElem?, Array.getElem?_replicate, if_pos table.isLt]
    rfl
  unfold frequency
  cases tokenClass : token.coefficients
  all_goals
    change ((Array.replicate 4 (Vector.replicate 256 (0 : UInt32))).getD token.table.val
      (Vector.replicate 256 0)).get _ = 0
    rw [slot, get_replicate]

/-- The frequency of a symbol is the number of its tokens, modulo the size of a word. -/
theorem frequency_ofTokens (tokens : Array Token) (token : Token) :
    (ofTokens tokens).frequency token =
      UInt32.ofNat (tokens.toList.countP (Same · token)) := by
  unfold ofTokens
  rw [← Array.foldl_toList, frequency_foldl complete_zero, frequency_zero, UInt32.zero_add]

theorem frequency_ne_zero {tokens : Array Token} {token : Token}
    (member : token ∈ tokens.toList)
    (few : tokens.toList.countP (fun other => other.coefficients = token.coefficients ∧
      other.table = token.table) < 2 ^ 32) :
    (ofTokens tokens).frequency token ≠ 0 := by
  have some : 0 < tokens.toList.countP (Same · token) :=
    List.countP_pos_iff.mpr ⟨token, member, decide_eq_true ⟨rfl, rfl, rfl⟩⟩
  have fewer : tokens.toList.countP (Same · token) ≤
      tokens.toList.countP (fun other => other.coefficients = token.coefficients ∧
        other.table = token.table) := by
    apply List.countP_mono_left
    intro other _ same
    have both := of_decide_eq_true same
    exact decide_eq_true ⟨both.1, both.2.1⟩
  rw [frequency_ofTokens]
  intro zero
  have wrapped := congrArg UInt32.toNat zero
  rw [UInt32.toNat_ofNat'] at wrapped
  change _ % 2 ^ 32 = 0 at wrapped
  omega

end SymbolCounts

namespace Token

theorem acTokens_length (table : Fin 4) (block : Block) (run : Nat)
    (positions : List (Fin 64)) :
    (acTokens table block run positions).length ≤ positions.length + (run + 15) / 16 := by
  induction positions generalizing run with
  | nil =>
      rw [acTokens]
      split
      · exact Nat.zero_le _
      · rw [List.length_singleton, List.length_nil]
        omega
  | cons position rest inductionHypothesis =>
      by_cases zero : block.get position = 0
      · rw [BlockDecoder.acTokens_zero zero, List.length_cons]
        have fewer := inductionHypothesis (run + 1)
        omega
      · rw [BlockDecoder.acTokens_nonzero zero, List.length_append, List.length_replicate,
          List.length_cons, List.length_cons]
        have fewer := inductionHypothesis 0
        omega

theorem acTokens_class {table : Fin 4} {block : Block} {run : Nat}
    {positions : List (Fin 64)} {token : Token}
    (member : token ∈ acTokens table block run positions) :
    token.coefficients = .ac ∧ token.table = table := by
  induction positions generalizing run with
  | nil =>
      rw [acTokens] at member
      split at member
      · cases member
      · rw [List.mem_singleton.mp member]
        exact ⟨rfl, rfl⟩
  | cons position rest inductionHypothesis =>
      by_cases zero : block.get position = 0
      · rw [BlockDecoder.acTokens_zero zero] at member
        exact inductionHypothesis member
      · rw [BlockDecoder.acTokens_nonzero zero] at member
        rcases List.mem_append.mp member with run | value
        · rw [List.eq_of_mem_replicate run]
          exact ⟨rfl, rfl⟩
        · rcases List.mem_cons.mp value with same | later
          · rw [same]
            exact ⟨rfl, rfl⟩
          · exact inductionHypothesis later

theorem blockTokens_table {table : Fin 4} {predictor : Int} {block : Block} {token : Token}
    (member : token ∈ blockTokens table predictor block) : token.table = table := by
  rcases List.mem_cons.mp member with same | later
  · rw [same]
    rfl
  · exact (acTokens_class later).2

theorem blockTokens_countP (table : Fin 4) (predictor : Int) (block : Block)
    (tokenClass : CoefficientClass) :
    (blockTokens table predictor block).countP (·.coefficients = tokenClass) ≤ 63 := by
  have bound := acTokens_length table block 0 acPositions
  change _ ≤ 63 at bound
  unfold blockTokens
  rw [List.countP_cons]
  cases tokenClass with
  | dc =>
      have none : (acTokens table block 0 acPositions).countP
          (·.coefficients = CoefficientClass.dc) = 0 := by
        apply List.countP_eq_zero.mpr
        intro token member
        rw [(acTokens_class member).1]
        decide
      rw [none, if_pos (by rfl)]
      decide
  | ac =>
      rw [if_neg (by simp [dc])]
      exact Nat.le_trans List.countP_le_length bound

end Token

theorem tokensAlong_countP (grids : Array Grid) (tables : List (Fin 4))
    (predictors : Array Int) (addresses : List BlockAddress) (tokenClass : CoefficientClass)
    (table : Fin 4) :
    (tokensAlong grids tables predictors addresses).countP
        (fun token => token.coefficients = tokenClass ∧ token.table = table) ≤
      63 * addresses.countP fun address => tables.getD address.component 0 = table := by
  induction addresses generalizing predictors with
  | nil => exact Nat.le_refl 0
  | cons address rest inductionHypothesis =>
      have later := inductionHypothesis (advance grids predictors address)
      rw [tokensAlong, List.countP_append, List.countP_cons]
      by_cases same : tables.getD address.component 0 = table
      · have here := Token.blockTokens_countP (tables.getD address.component 0)
          (predictors.getD address.component 0) (blockAt grids address) tokenClass
        have fewer := List.countP_mono_left (p := fun token : Token =>
            decide (token.coefficients = tokenClass ∧ token.table = table))
          (q := fun token => decide (token.coefficients = tokenClass))
          (l := Token.blockTokens (tables.getD address.component 0)
            (predictors.getD address.component 0) (blockAt grids address))
          fun token _ both => decide_eq_true (of_decide_eq_true both).1
        rw [if_pos (decide_eq_true same)]
        omega
      · have none : (Token.blockTokens (tables.getD address.component 0)
            (predictors.getD address.component 0) (blockAt grids address)).countP
            (fun token => token.coefficients = tokenClass ∧ token.table = table) = 0 := by
          apply List.countP_eq_zero.mpr
          intro token member both
          have equal := (of_decide_eq_true both).2
          rw [Token.blockTokens_table member] at equal
          exact same equal
        rw [if_neg (by simpa using same), none]
        omega

theorem tokensAlong_table {grids : Array Grid} {tables : List (Fin 4)}
    {predictors : Array Int} {addresses : List BlockAddress} {token : Token}
    (member : token ∈ tokensAlong grids tables predictors addresses) :
    ∃ address ∈ addresses, token.table = tables.getD address.component 0 := by
  induction addresses generalizing predictors with
  | nil => cases member
  | cons address rest inductionHypothesis =>
      rw [tokensAlong] at member
      rcases List.mem_append.mp member with here | later
      · exact ⟨address, List.mem_cons_self, Token.blockTokens_table here⟩
      · obtain ⟨other, inRest, same⟩ := inductionHypothesis later
        exact ⟨other, List.mem_cons_of_mem _ inRest, same⟩

/-- Every symbol of a scan has a frequency other than zero if no table serves more blocks
than words of 32 bits can count the symbols of. -/
theorem frequency_ne_zero_of_few {frame : Frame} {grids : Array Grid} {tables : List (Fin 4)}
    {tokens : Array Token}
    (collected : scanTokens frame grids tables = .ok tokens)
    (few : ∀ table, 63 * (ScanLayout.interleaved frame frame.components).order.countP
      (fun address => tables.getD address.component 0 = table) < 2 ^ 32) :
    ∀ token ∈ tokens.toList, (SymbolCounts.ofTokens tokens).frequency token ≠ 0 := by
  intro token member
  apply SymbolCounts.frequency_ne_zero member
  rw [scanTokens_eq_ok collected]
  exact Nat.lt_of_le_of_lt (tokensAlong_countP _ _ _ _ _ _) (few token.table)

end LosslessJpeg
