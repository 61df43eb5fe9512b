import DraftOpd.UniformCoin

/-!
# The sampling verify kernel

`TreeSpeculativeSamplingTargetOnly` (`sgl-kernel/csrc/speculative/speculative_sampling.cuh:39-162`)
walks a tree of drafted tokens from its root, one coin for each node, and samples the token
after the last accepted one. `kernelBlock` is one block of its grid, on the flat arrays the
kernel gets, and `kernelGrid` its blocks in the order they happen to run.
`computeDflashSamplingAcceptLenAndBonus` is the function of that name
(`speculative/dflash_utils.py:752-936`) from the target's probabilities on : it calls the
kernel with the buffers of a chain (`dflash_utils.py:334-390`) and draft probabilities of
zero.

The numbers are those of an ordered field, and `DeviceSamplingFromProb` is a parameter.
-/

namespace DraftOpd

set_option linter.unusedSectionVars false

variable {K : Type*} [Field K] [LinearOrder K]

/-- What the kernel reads, as flat arrays. -/
structure TreeInput (K : Type*) where
  candidates : ℕ → ℕ
  retriveIndex : ℕ → ℤ
  retriveNextToken : ℕ → ℤ
  retriveNextSibling : ℕ → ℤ
  uniformSamples : ℕ → K
  uniformSamplesForFinalSampling : ℕ → K
  targetProbs : ℕ → K
  numSpeculativeTokens : ℕ
  numDraftTokens : ℕ
  d : ℕ
  thresholdSingle : K
  thresholdAcc : K
  /-- `DeviceSamplingFromProb` over all of the vocabulary, if it finds an index. -/
  sampleFromProb : ℕ → (ℕ → K) → K → Option ℕ

/-- What the kernel writes. -/
structure TreeArrays (K : Type*) where
  predicts : ℕ → ℤ
  acceptIndex : ℕ → ℤ
  acceptTokenNum : ℕ → ℕ
  draftProbs : ℕ → K

/-- The local variables of a block, with the arrays. -/
structure WalkState (K : Type*) where
  probAcc : K
  curProbOffset : ℕ
  coin : K
  lastAcceptedRetriveIdx : ℤ
  numAcceptedTokens : ℕ
  curIndex : ℤ
  arrays : TreeArrays K

namespace TreeInput

/-- The flat index of node `curIndex` of block `bx`. -/
def node (inp : TreeInput K) (bx : ℕ) (curIndex : ℤ) : ℕ :=
  (bx * inp.numDraftTokens + curIndex).toNat

/-- `coin <= prob_acc / threshold_acc || target_prob_single >= threshold_single`. -/
def accepts (inp : TreeInput K) (coin probAcc targetProbSingle : K) : Prop :=
  coin ≤ probAcc / inp.thresholdAcc ∨ inp.thresholdSingle ≤ targetProbSingle

instance (inp : TreeInput K) (coin probAcc targetProbSingle : K) :
    Decidable (inp.accepts coin probAcc targetProbSingle) :=
  inferInstanceAs (Decidable (_ ∨ _))

/-- The `while` loop over a node and its siblings ; `none` when the fuel runs out. -/
def walkSiblings (inp : TreeInput K) (bx : ℕ) : ℕ → WalkState K → Option (WalkState K)
  | fuel, s =>
    if s.curIndex = -1 then some s
    else match fuel with
      | 0 => none
      | fuel + 1 =>
        let i := inp.node bx s.curIndex
        let draftIndex := inp.retriveIndex i
        let draftTokenId := inp.candidates i
        let targetProbSingle := inp.targetProbs (s.curProbOffset + draftTokenId)
        let probAcc := s.probAcc + targetProbSingle
        if inp.accepts s.coin probAcc targetProbSingle then
          let numAcceptedTokens := s.numAcceptedTokens + 1
          some { s with
            probAcc := 0
            curProbOffset := i * inp.d
            coin := inp.uniformSamples i
            lastAcceptedRetriveIdx := draftIndex
            numAcceptedTokens
            arrays := { s.arrays with
              predicts := Function.update s.arrays.predicts s.lastAcceptedRetriveIdx.toNat
                draftTokenId
              acceptIndex := Function.update s.arrays.acceptIndex
                (bx * inp.numSpeculativeTokens + numAcceptedTokens) draftIndex } }
        else
          walkSiblings inp bx fuel { s with
            probAcc
            curIndex := inp.retriveNextSibling i
            arrays := { s.arrays with
              draftProbs := Function.update s.arrays.draftProbs
                (s.curProbOffset + draftTokenId)
                (inp.targetProbs (s.curProbOffset + draftTokenId)) } }

theorem walkSiblings_end (inp : TreeInput K) (bx fuel : ℕ) {s : WalkState K}
    (h : s.curIndex = -1) : inp.walkSiblings bx fuel s = some s := by
  unfold walkSiblings
  rw [if_pos h]

/-- The `for` loop, with the number of levels left. A node has fewer siblings than there are
draft tokens. -/
def walk (inp : TreeInput K) (bx : ℕ) : ℕ → WalkState K → Option (WalkState K)
  | 0, s => some s
  | levels + 1, s => do
    let s ← inp.walkSiblings bx inp.numDraftTokens
      { s with curIndex := inp.retriveNextToken (inp.node bx s.curIndex) }
    if s.curIndex = -1 then some s else walk inp bx levels s

/-- The local variables at the start of a block. -/
def walkStart (inp : TreeInput K) (bx : ℕ) (arrays : TreeArrays K) : WalkState K where
  probAcc := 0
  curProbOffset := bx * inp.numDraftTokens * inp.d
  coin := inp.uniformSamples (bx * inp.numDraftTokens)
  lastAcceptedRetriveIdx := inp.retriveIndex (bx * inp.numDraftTokens)
  numAcceptedTokens := 0
  curIndex := 0
  arrays := { arrays with
    acceptIndex := Function.update arrays.acceptIndex (bx * inp.numSpeculativeTokens)
      (inp.retriveIndex (bx * inp.numDraftTokens)) }

/-- `relu_q_minus_p` : there are no draft probabilities for the bonus token. -/
def reluQMinusP (inp : TreeInput K) (s : WalkState K) (x : ℕ) : K :=
  let q := inp.targetProbs (s.curProbOffset + x)
  let p := if s.numAcceptedTokens ≠ inp.numSpeculativeTokens - 1 then
    s.arrays.draftProbs (s.curProbOffset + x) else 0
  max (q - p) 0

/-- The sampled id : `d - 1` when nothing exceeds `u`. -/
def finalSample (inp : TreeInput K) (bx : ℕ) (s : WalkState K) : ℕ :=
  let u := inp.uniformSamplesForFinalSampling bx * cumulative (inp.reluQMinusP s) inp.d
  (inp.sampleFromProb inp.d (inp.reluQMinusP s) u).getD (inp.d - 1)

/-- One block. -/
def kernelBlock (inp : TreeInput K) (bx : ℕ) (arrays : TreeArrays K) : Option (TreeArrays K) := do
  let s ← inp.walk bx (inp.numSpeculativeTokens - 1) (inp.walkStart bx arrays)
  some { s.arrays with
    acceptTokenNum := Function.update s.arrays.acceptTokenNum bx s.numAcceptedTokens
    predicts := Function.update s.arrays.predicts s.lastAcceptedRetriveIdx.toNat
      (inp.finalSample bx s) }

/-- The blocks of the grid, in some order. -/
def kernelGrid (inp : TreeInput K) : List ℕ → TreeArrays K → Option (TreeArrays K)
  | [], arrays => some arrays
  | bx :: blocks, arrays => do kernelGrid inp blocks (← inp.kernelBlock bx arrays)

end TreeInput

/-! ## The chain -/

/-- A tensor of two dimensions as the kernel gets it. -/
def flat2 {β : Type*} (cols : ℕ) (x : ℕ → ℕ → β) (i : ℕ) : β := x (i / cols) (i % cols)

/-- A tensor of three dimensions as the kernel gets it. -/
def flat3 {β : Type*} (cols d : ℕ) (x : ℕ → ℕ → ℕ → β) (i : ℕ) : β :=
  x (i / d / cols) (i / d % cols) (i % d)

/-- What `compute_dflash_sampling_accept_len_and_bonus` works on : candidates, the target's
probabilities at the verify rows, the coins and the thresholds. -/
structure SamplingInput (K : Type*) where
  bs : ℕ
  draftTokenNum : ℕ
  vocabSize : ℕ
  candidates : ℕ → ℕ → ℕ
  targetProbs : ℕ → ℕ → ℕ → K
  uniformSamples : ℕ → ℕ → K
  uniformSamplesForFinalSampling : ℕ → K
  thresholdSingle : K
  thresholdAcc : K
  sampleFromProb : ℕ → (ℕ → K) → K → Option ℕ

/-- What it can raise. -/
inductive SamplingError where
  | batchSize
  | draftTokenNum
  | outOfFuel
  deriving DecidableEq, Repr

namespace SamplingInput

/-- The kernel's input, with the buffers of `_get_or_create_chain_verify_buffers` : each row's
next token is the next node, the last one has none, and no node has a sibling. -/
def chain (inp : SamplingInput K) : TreeInput K where
  candidates := flat2 inp.draftTokenNum inp.candidates
  retriveIndex i := i
  retriveNextToken := flat2 inp.draftTokenNum fun _ j =>
    if j = inp.draftTokenNum - 1 then -1 else j + 1
  retriveNextSibling _ := -1
  uniformSamples := flat2 inp.draftTokenNum inp.uniformSamples
  uniformSamplesForFinalSampling := inp.uniformSamplesForFinalSampling
  targetProbs := flat3 inp.draftTokenNum inp.vocabSize inp.targetProbs
  numSpeculativeTokens := inp.draftTokenNum
  numDraftTokens := inp.draftTokenNum
  d := inp.vocabSize
  thresholdSingle := inp.thresholdSingle
  thresholdAcc := max inp.thresholdAcc (1 / 10 ^ 9)
  sampleFromProb := inp.sampleFromProb

/-- The accept length and the bonus token of each row, with the buffers as they were left by
the last call (`stale`) and the blocks in the order `blocks`. -/
def computeDflashSamplingAcceptLenAndBonus (inp : SamplingInput K) (blocks : List ℕ)
    (stale : TreeArrays K) : Except SamplingError (ℕ → ℕ × ℤ) :=
  if inp.bs ≤ 0 then .error .batchSize
  else if inp.draftTokenNum ≤ 0 then .error .draftTokenNum
  else match inp.chain.kernelGrid blocks { stale with draftProbs := fun _ => 0 } with
    | none => .error .outOfFuel
    | some arrays => .ok fun row =>
      let acceptLen := arrays.acceptTokenNum row
      let acceptPos := arrays.acceptIndex (row * inp.draftTokenNum + acceptLen)
      (acceptLen, arrays.predicts acceptPos.toNat)

/-! ## The walk along a chain -/

/-- Is the candidate after node `k` of row `b` accepted. -/
def accepted (inp : SamplingInput K) (b k : ℕ) : Prop :=
  let q := inp.targetProbs b k (inp.candidates b (k + 1))
  inp.uniformSamples b k ≤ q / inp.chain.thresholdAcc ∨ inp.thresholdSingle ≤ q

/-- The candidates of row `b` are accepted up to node `a`, where the chain ends or the next
one is rejected. -/
structure Leading (inp : SamplingInput K) (b a : ℕ) : Prop where
  le : a ≤ inp.draftTokenNum - 1
  accepted : ∀ k < a, inp.accepted b k
  rejected : a < inp.draftTokenNum - 1 → ¬inp.accepted b a

theorem Leading.unique {inp : SamplingInput K} {b a a' : ℕ} (h : inp.Leading b a)
    (h' : inp.Leading b a') : a = a' := by
  rcases Nat.lt_trichotomy a a' with hlt | heq | hlt
  · exact absurd (h'.accepted a hlt) (h.rejected (hlt.trans_le h'.le))
  · exact heq
  · exact absurd (h.accepted a' hlt) (h'.rejected (hlt.trans_le h.le))

theorem Leading.lt {inp : SamplingInput K} {b a : ℕ} (h : inp.Leading b a)
    (hB : 0 < inp.draftTokenNum) : a < inp.draftTokenNum := by
  have hle := h.le
  omega

theorem flat2_node {β : Type*} {cols : ℕ} (x : ℕ → ℕ → β) (b : ℕ) {k : ℕ} (hk : k < cols) :
    flat2 cols x (b * cols + k) = x b k := by
  rw [flat2, Nat.mul_comm, Nat.mul_add_div (by omega), Nat.mul_add_mod, Nat.div_eq_of_lt hk,
    Nat.mod_eq_of_lt hk, Nat.add_zero]

theorem flat3_node {β : Type*} {cols d : ℕ} (x : ℕ → ℕ → ℕ → β) (b : ℕ) {k y : ℕ}
    (hk : k < cols) (hy : y < d) : flat3 cols d x ((b * cols + k) * d + y) = x b k y := by
  have hdiv : ((b * cols + k) * d + y) / d = b * cols + k := by
    rw [Nat.mul_comm, Nat.mul_add_div (by omega), Nat.div_eq_of_lt hy, Nat.add_zero]
  have hmod : ((b * cols + k) * d + y) % d = y := by
    rw [Nat.mul_comm, Nat.mul_add_mod, Nat.mod_eq_of_lt hy]
  have h := flat2_node (fun i j => x i j y) b hk
  rw [flat2] at h
  rw [flat3, hdiv, hmod, h]

theorem chain_node (inp : SamplingInput K) (b k : ℕ) :
    inp.chain.node b k = b * inp.draftTokenNum + k := by
  simp only [TreeInput.node, chain]
  omega

/-- The candidates of row `b` are tokens of the vocabulary. -/
def InVocab (inp : SamplingInput K) (b : ℕ) : Prop :=
  ∀ k < inp.draftTokenNum, inp.candidates b k < inp.vocabSize

/-- An index outside of row `b`. -/
def OutOfRow (inp : SamplingInput K) (b i : ℕ) : Prop :=
  i < b * inp.draftTokenNum ∨ b * inp.draftTokenNum + inp.draftTokenNum ≤ i

/-- The last accepted node of row `b` is node `k`. -/
structure AtNode (inp : SamplingInput K) (b k : ℕ) (arrays : TreeArrays K) (s : WalkState K) :
    Prop where
  curProbOffset : s.curProbOffset = (b * inp.draftTokenNum + k) * inp.vocabSize
  lastAccepted : s.lastAcceptedRetriveIdx = (b * inp.draftTokenNum + k : ℕ)
  numAccepted : s.numAcceptedTokens = k
  acceptTokenNum : s.arrays.acceptTokenNum = arrays.acceptTokenNum
  acceptIndex : s.arrays.acceptIndex (b * inp.draftTokenNum + k) =
    (b * inp.draftTokenNum + k : ℕ)
  frame : ∀ i, inp.OutOfRow b i → s.arrays.predicts i = arrays.predicts i ∧
    s.arrays.acceptIndex i = arrays.acceptIndex i

/-- The walk goes on from node `k`. -/
structure Stage (inp : SamplingInput K) (b k : ℕ) (arrays : TreeArrays K) (s : WalkState K) :
    Prop extends inp.AtNode b k arrays s where
  probAcc : s.probAcc = 0
  coin : s.coin = inp.uniformSamples b k
  curIndex : s.curIndex = k
  draftProbs : s.arrays.draftProbs = arrays.draftProbs

/-- The draft probabilities after the candidate that follows node `a` was rejected, or after
the end of the chain. -/
def rejectedMass (inp : SamplingInput K) (b a : ℕ) (draftProbs : ℕ → K) : ℕ → K :=
  if a < inp.draftTokenNum - 1 then
    Function.update draftProbs
      ((b * inp.draftTokenNum + a) * inp.vocabSize + inp.candidates b (a + 1))
      (inp.targetProbs b a (inp.candidates b (a + 1)))
  else draftProbs

/-- The walk has ended at node `a`. -/
structure Walked (inp : SamplingInput K) (b a : ℕ) (arrays : TreeArrays K) (s : WalkState K) :
    Prop extends inp.AtNode b a arrays s where
  leading : inp.Leading b a
  draftProbs : s.arrays.draftProbs = inp.rejectedMass b a arrays.draftProbs

variable {inp : SamplingInput K} {b k : ℕ} {arrays : TreeArrays K} {s : WalkState K}

theorem stage_start (hB : 0 < inp.draftTokenNum) :
    inp.Stage b 0 arrays (inp.chain.walkStart b arrays) := by
  refine ⟨⟨rfl, rfl, rfl, rfl, ?_, ?_⟩, rfl, flat2_node inp.uniformSamples b hB, rfl, rfl⟩
  · simp [TreeInput.walkStart, chain]
  · intro i hi
    have hne : i ≠ b * inp.draftTokenNum := by
      rcases hi with hi | hi <;> omega
    exact ⟨rfl, Function.update_of_ne hne _ _⟩

theorem retriveNextToken_chain (hk : k < inp.draftTokenNum - 1) :
    inp.chain.retriveNextToken (inp.chain.node b k) = (k + 1 : ℕ) := by
  rw [chain_node]
  have h := flat2_node (fun _ j : ℕ => if j = inp.draftTokenNum - 1 then (-1 : ℤ) else j + 1) b
    (show k < inp.draftTokenNum by omega)
  rw [if_neg (by omega)] at h
  rw [Nat.cast_add, Nat.cast_one]
  exact h

/-- The `while` loop tries the node after node `k` and no other. -/
theorem walkSiblings_chain (hcand : inp.InVocab b)
    (hk : k < inp.draftTokenNum - 1) (hs : inp.Stage b k arrays s) :
    ∃ s', inp.chain.walkSiblings b inp.chain.numDraftTokens
        { s with curIndex := inp.chain.retriveNextToken (inp.chain.node b s.curIndex) } =
          some s' ∧
      (inp.accepted b k → inp.Stage b (k + 1) arrays s') ∧
      (¬inp.accepted b k → s'.curIndex = -1 ∧ inp.AtNode b k arrays s' ∧
        s'.arrays.draftProbs = inp.rejectedMass b k arrays.draftProbs) := by
  have hnext : inp.chain.retriveNextToken (inp.chain.node b s.curIndex) = (k + 1 : ℕ) := by
    rw [hs.curIndex, retriveNextToken_chain hk]
  obtain ⟨fuel, hfuel⟩ : ∃ fuel, inp.chain.numDraftTokens = fuel + 1 :=
    ⟨inp.draftTokenNum - 1, by simp only [chain]; omega⟩
  have htoken : inp.chain.candidates (b * inp.draftTokenNum + (k + 1)) =
      inp.candidates b (k + 1) := flat2_node _ _ (by omega)
  have hprob : inp.chain.targetProbs (s.curProbOffset + inp.candidates b (k + 1)) =
      inp.targetProbs b k (inp.candidates b (k + 1)) := by
    rw [hs.curProbOffset]
    exact flat3_node _ _ (by omega) (hcand _ (by omega))
  have hnode : inp.chain.node b ((k + 1 : ℕ) : ℤ) = b * inp.draftTokenNum + (k + 1) :=
    chain_node inp b (k + 1)
  have hne : ((k + 1 : ℕ) : ℤ) ≠ -1 := by omega
  have hacc : inp.chain.accepts s.coin
      (s.probAcc + inp.chain.targetProbs
        (s.curProbOffset + inp.chain.candidates (inp.chain.node b ((k + 1 : ℕ) : ℤ))))
      (inp.chain.targetProbs
        (s.curProbOffset + inp.chain.candidates (inp.chain.node b ((k + 1 : ℕ) : ℤ)))) ↔
      inp.accepted b k := by
    rw [hnode, htoken, hprob, hs.probAcc, hs.coin, zero_add]
    rfl
  have hcoin : inp.chain.uniformSamples (b * inp.draftTokenNum + (k + 1)) =
      inp.uniformSamples b (k + 1) := flat2_node _ _ (by omega)
  rw [hnext, hfuel]
  unfold TreeInput.walkSiblings
  simp only [if_neg hne]
  by_cases h : inp.accepted b k
  · rw [if_pos (hacc.mpr h), hnode, htoken]
    refine ⟨_, rfl, fun _ => ?_, fun hn => absurd h hn⟩
    refine ⟨⟨rfl, rfl, ?_, hs.acceptTokenNum, ?_, ?_⟩, rfl, hcoin, rfl, hs.draftProbs⟩
    · simp only [hs.numAccepted]
    · simp only [hs.numAccepted, chain, Function.update_self]
    · intro i hi
      have hlast : i ≠ b * inp.draftTokenNum + k := by
        rcases hi with hi | hi <;> omega
      have hthis : i ≠ b * inp.draftTokenNum + (k + 1) := by
        rcases hi with hi | hi <;> omega
      simp only [hs.lastAccepted, hs.numAccepted, Int.toNat_natCast, chain]
      rw [Function.update_of_ne hlast, Function.update_of_ne hthis]
      exact hs.frame i hi
  · rw [if_neg (mt hacc.mp h), hnode, htoken, hprob, TreeInput.walkSiblings_end _ _ _ rfl]
    refine ⟨_, rfl, fun ha => absurd ha h, fun _ => ⟨rfl, ?_, ?_⟩⟩
    · exact ⟨hs.curProbOffset, hs.lastAccepted, hs.numAccepted, hs.acceptTokenNum,
        hs.acceptIndex, hs.frame⟩
    · simp only [hs.draftProbs, hs.curProbOffset]
      rw [rejectedMass, if_pos hk]

/-- The walk ends at the first node whose candidate is rejected. -/
theorem walk_chain (hcand : inp.InVocab b) :
    ∀ (levels k : ℕ) (s : WalkState K), k + levels = inp.draftTokenNum - 1 →
      (∀ j < k, inp.accepted b j) → inp.Stage b k arrays s →
      ∃ a s', inp.chain.walk b levels s = some s' ∧ inp.Walked b a arrays s'
  | 0, k, s, hk, hacc, hs => by
    have hend : ¬k < inp.draftTokenNum - 1 := by omega
    refine ⟨k, s, rfl, hs.toAtNode, ⟨by omega, hacc, fun h => absurd h hend⟩, ?_⟩
    rw [rejectedMass, if_neg hend]
    exact hs.draftProbs
  | levels + 1, k, s, hk, hacc, hs => by
    have hlt : k < inp.draftTokenNum - 1 := by omega
    obtain ⟨s₁, hs₁, haccept, hreject⟩ := walkSiblings_chain hcand hlt hs
    simp only [TreeInput.walk, hs₁, Option.bind_eq_bind, Option.bind_some]
    by_cases h : inp.accepted b k
    · have hstage := haccept h
      have hne : s₁.curIndex ≠ -1 := by
        rw [hstage.curIndex]
        omega
      have hacc' : ∀ j < k + 1, inp.accepted b j := by
        intro j hj
        rcases Nat.lt_succ_iff_lt_or_eq.mp hj with hj | rfl
        · exact hacc j hj
        · exact h
      rw [if_neg hne]
      exact walk_chain hcand levels (k + 1) s₁ (by omega) hacc' hstage
    · obtain ⟨hend, hat, hprobs⟩ := hreject h
      rw [if_pos hend]
      exact ⟨k, s₁, rfl, hat, ⟨hlt.le, hacc, fun _ => h⟩, hprobs⟩

/-! ## One block of the grid -/

/-- The target's probabilities at node `a` without the mass of the candidate rejected there. -/
def residual (inp : SamplingInput K) (b a x : ℕ) : K :=
  max (inp.targetProbs b a x -
    if a < inp.draftTokenNum - 1 ∧ x = inp.candidates b (a + 1) then inp.targetProbs b a x
    else 0) 0

/-- The token sampled after node `a`. -/
def bonus (inp : SamplingInput K) (b a : ℕ) : ℕ :=
  (inp.sampleFromProb inp.vocabSize (inp.residual b a)
    (inp.uniformSamplesForFinalSampling b * cumulative (inp.residual b a) inp.vocabSize)).getD
      (inp.vocabSize - 1)

/-- What a block leaves for its row. -/
structure RowResult (inp : SamplingInput K) (b a : ℕ) (arrays : TreeArrays K) : Prop where
  leading : inp.Leading b a
  acceptTokenNum : arrays.acceptTokenNum b = a
  acceptIndex : arrays.acceptIndex (b * inp.draftTokenNum + a) =
    (b * inp.draftTokenNum + a : ℕ)
  predicts : arrays.predicts (b * inp.draftTokenNum + a) = inp.bonus b a

/-- The arrays agree on row `b`. -/
structure SameRow (inp : SamplingInput K) (b : ℕ) (arrays arrays' : TreeArrays K) : Prop where
  acceptTokenNum : arrays'.acceptTokenNum b = arrays.acceptTokenNum b
  predicts : ∀ k < inp.draftTokenNum, arrays'.predicts (b * inp.draftTokenNum + k) =
    arrays.predicts (b * inp.draftTokenNum + k)
  acceptIndex : ∀ k < inp.draftTokenNum, arrays'.acceptIndex (b * inp.draftTokenNum + k) =
    arrays.acceptIndex (b * inp.draftTokenNum + k)
  draftProbs : ∀ k < inp.draftTokenNum, ∀ x < inp.vocabSize,
    arrays'.draftProbs ((b * inp.draftTokenNum + k) * inp.vocabSize + x) =
      arrays.draftProbs ((b * inp.draftTokenNum + k) * inp.vocabSize + x)

/-- No draft probability of row `b` was written yet. -/
def ZeroRow (inp : SamplingInput K) (b : ℕ) (arrays : TreeArrays K) : Prop :=
  ∀ k < inp.draftTokenNum, ∀ x < inp.vocabSize,
    arrays.draftProbs ((b * inp.draftTokenNum + k) * inp.vocabSize + x) = 0

theorem SameRow.trans {arrays' arrays'' : TreeArrays K} (h : inp.SameRow b arrays arrays')
    (h' : inp.SameRow b arrays' arrays'') : inp.SameRow b arrays arrays'' where
  acceptTokenNum := h'.acceptTokenNum.trans h.acceptTokenNum
  predicts k hk := (h'.predicts k hk).trans (h.predicts k hk)
  acceptIndex k hk := (h'.acceptIndex k hk).trans (h.acceptIndex k hk)
  draftProbs k hk x hx := (h'.draftProbs k hk x hx).trans (h.draftProbs k hk x hx)

theorem RowResult.of_sameRow {a : ℕ} {arrays' : TreeArrays K} (hB : 0 < inp.draftTokenNum)
    (h : inp.RowResult b a arrays) (hsame : inp.SameRow b arrays arrays') :
    inp.RowResult b a arrays' := by
  have ha := h.leading.lt hB
  constructor
  · exact h.leading
  · rw [hsame.acceptTokenNum, h.acceptTokenNum]
  · rw [hsame.acceptIndex a ha, h.acceptIndex]
  · rw [hsame.predicts a ha, h.predicts]

theorem outOfRow_of_ne {c : ℕ} (hc : c ≠ b) (hk : k < inp.draftTokenNum) :
    inp.OutOfRow b (c * inp.draftTokenNum + k) := by
  rcases Nat.lt_or_gt_of_ne hc with hlt | hlt
  · have hle := Nat.mul_le_mul_right inp.draftTokenNum (Nat.succ_le_of_lt hlt)
    rw [Nat.succ_mul] at hle
    exact .inl (by omega)
  · have hle := Nat.mul_le_mul_right inp.draftTokenNum (Nat.succ_le_of_lt hlt)
    rw [Nat.succ_mul] at hle
    exact .inr (by omega)

/-- The flat index of a probability determines its node and its token. -/
theorem node_inj {d i j x y : ℕ} (hx : x < d) (hy : y < d) (h : i * d + x = j * d + y) :
    i = j ∧ x = y := by
  have hij : i = j := by
    have hdiv := congrArg (· / d) h
    simpa only [Nat.mul_comm _ d, Nat.mul_add_div (Nat.zero_lt_of_lt hx), Nat.div_eq_of_lt hx,
      Nat.div_eq_of_lt hy, Nat.add_zero] using hdiv
  exact ⟨hij, by rw [hij] at h; omega⟩

theorem rejectedMass_of_ne {a c x : ℕ} (hcand : inp.InVocab b)
    (draftProbs : ℕ → K) (hc : c ≠ b)
    (hk : k < inp.draftTokenNum) (hx : x < inp.vocabSize) :
    inp.rejectedMass b a draftProbs ((c * inp.draftTokenNum + k) * inp.vocabSize + x) =
      draftProbs ((c * inp.draftTokenNum + k) * inp.vocabSize + x) := by
  rw [rejectedMass]
  split_ifs with ha
  · refine Function.update_of_ne (fun h => ?_) _ _
    have hnode := (node_inj hx (hcand _ (by omega)) h).1
    rcases outOfRow_of_ne hc hk with h | h <;> omega
  · rfl

/-- The kernel samples from the residual. -/
theorem reluQMinusP_eq_residual {a x : ℕ} (hcand : inp.InVocab b)
    (hB : 0 < inp.draftTokenNum) (hzero : inp.ZeroRow b arrays) (hw : inp.Walked b a arrays s)
    (hx : x < inp.vocabSize) : inp.chain.reluQMinusP s x = inp.residual b a x := by
  have ha := hw.leading.lt hB
  have hq : inp.chain.targetProbs (s.curProbOffset + x) = inp.targetProbs b a x := by
    rw [hw.curProbOffset]
    exact flat3_node _ _ ha hx
  have hnum : inp.chain.numSpeculativeTokens - 1 = inp.draftTokenNum - 1 := rfl
  simp only [TreeInput.reluQMinusP, residual]
  rw [hq, hw.numAccepted, hnum, hw.draftProbs, hw.curProbOffset, rejectedMass]
  by_cases hend : a < inp.draftTokenNum - 1
  · rw [if_pos (by omega), if_pos hend]
    by_cases hxc : x = inp.candidates b (a + 1)
    · rw [if_pos ⟨hend, hxc⟩, hxc, Function.update_self]
    · rw [if_neg fun h => hxc h.2,
        Function.update_of_ne fun h => hxc (node_inj hx (hcand _ (by omega)) h).2,
        hzero a ha x hx]
  · rw [if_neg (by have := hw.leading.le; omega), if_neg fun h => hend h.1]

theorem finalSample_eq_bonus {a : ℕ} (hcand : inp.InVocab b)
    (hsample : SamplesFirst inp.sampleFromProb) (hB : 0 < inp.draftTokenNum)
    (hzero : inp.ZeroRow b arrays) (hw : inp.Walked b a arrays s) :
    inp.chain.finalSample b s = inp.bonus b a := by
  have hres : ∀ x < inp.vocabSize, inp.chain.reluQMinusP s x = inp.residual b a x :=
    fun x hx => reluQMinusP_eq_residual hcand hB hzero hw hx
  have hd : inp.chain.d = inp.vocabSize := rfl
  simp only [TreeInput.finalSample, bonus]
  rw [hd, cumulative_congr hres le_rfl, show inp.chain.sampleFromProb = inp.sampleFromProb from rfl,
    hsample.congr hres]
  rfl

/-- One block writes its own row's result and nothing of another row. -/
theorem kernelBlock_chain (hcand : inp.InVocab b)
    (hsample : SamplesFirst inp.sampleFromProb) (hB : 0 < inp.draftTokenNum)
    (hzero : inp.ZeroRow b arrays) :
    ∃ arrays', inp.chain.kernelBlock b arrays = some arrays' ∧
      (∃ a, inp.RowResult b a arrays') ∧ ∀ c ≠ b, inp.SameRow c arrays arrays' := by
  obtain ⟨a, s, hwalk, hw⟩ := walk_chain hcand (inp.draftTokenNum - 1) 0 _
    (Nat.zero_add _) (by omega) (stage_start hB : inp.Stage b 0 arrays _)
  have ha := hw.leading.lt hB
  have hnum : inp.chain.numSpeculativeTokens - 1 = inp.draftTokenNum - 1 := rfl
  have hbonus := finalSample_eq_bonus hcand hsample hB hzero hw
  refine ⟨_, by
    simp only [TreeInput.kernelBlock, hnum, hwalk, Option.bind_eq_bind, Option.bind_some]
    rfl, ⟨a, ?_⟩, fun c hc => ?_⟩
  · constructor
    · exact hw.leading
    · exact (Function.update_self ..).trans hw.numAccepted
    · exact hw.acceptIndex
    · simp only [hw.lastAccepted, Int.toNat_natCast, Function.update_self, hbonus]
  · constructor
    · simp only [Function.update_of_ne hc, hw.acceptTokenNum]
    · intro k hk
      have hout := outOfRow_of_ne hc hk
      have hne : c * inp.draftTokenNum + k ≠ b * inp.draftTokenNum + a := by
        rcases hout with h | h <;> omega
      simp only [hw.lastAccepted, Int.toNat_natCast, Function.update_of_ne hne]
      exact (hw.frame _ hout).1
    · exact fun k hk => (hw.frame _ (outOfRow_of_ne hc hk)).2
    · intro k hk x hx
      simp only [hw.draftProbs]
      exact rejectedMass_of_ne hcand _ hc hk hx

/-! ## The grid -/

/-- The blocks leave every row's result, whatever order they run in. -/
theorem kernelGrid_chain (hsample : SamplesFirst inp.sampleFromProb) (hB : 0 < inp.draftTokenNum) :
    ∀ (blocks : List ℕ) (arrays : TreeArrays K), blocks.Nodup →
      (∀ b ∈ blocks, inp.InVocab b) → (∀ b ∈ blocks, inp.ZeroRow b arrays) →
      ∃ arrays', inp.chain.kernelGrid blocks arrays = some arrays' ∧
        (∀ b ∈ blocks, ∃ a, inp.RowResult b a arrays') ∧
        ∀ c, c ∉ blocks → inp.SameRow c arrays arrays'
  | [], arrays, _, _, _ => by
    refine ⟨arrays, rfl, fun b hb => absurd hb List.not_mem_nil, fun c _ => ?_⟩
    exact ⟨rfl, fun _ _ => rfl, fun _ _ => rfl, fun _ _ _ _ => rfl⟩
  | b :: blocks, arrays, hnodup, hcand, hzero => by
    obtain ⟨hb, hnodup⟩ := List.nodup_cons.mp hnodup
    obtain ⟨arrays₁, hblock, ⟨a, hresult⟩, hsame⟩ :=
      kernelBlock_chain (hcand b List.mem_cons_self) hsample hB (hzero b List.mem_cons_self)
    have hzero₁ : ∀ c ∈ blocks, inp.ZeroRow c arrays₁ := by
      intro c hc k hk x hx
      rw [(hsame c fun h => hb (h ▸ hc)).draftProbs k hk x hx]
      exact hzero c (List.mem_cons_of_mem b hc) k hk x hx
    obtain ⟨arrays₂, hgrid, hresults, hrest⟩ :=
      kernelGrid_chain hsample hB blocks arrays₁ hnodup
        (fun c hc => hcand c (List.mem_cons_of_mem b hc)) hzero₁
    refine ⟨arrays₂, ?_, ?_, ?_⟩
    · simp only [TreeInput.kernelGrid, hblock, Option.bind_eq_bind, Option.bind_some, hgrid]
    · intro c hc
      rcases List.mem_cons.mp hc with rfl | hc
      · exact ⟨a, hresult.of_sameRow hB (hrest c hb)⟩
      · exact hresults c hc
    · intro c hc
      rw [List.mem_cons, not_or] at hc
      exact (hsame c hc.1).trans (hrest c hc.2)

/-- A row's accept length is that of its leading accepted candidates, and its bonus token is
sampled from the residual after them. -/
theorem computeDflashSamplingAcceptLenAndBonus_eq (hsample : SamplesFirst inp.sampleFromProb)
    (hbs : 0 < inp.bs) (hB : 0 < inp.draftTokenNum) {blocks : List ℕ} (hnodup : blocks.Nodup)
    (hcand : ∀ b ∈ blocks, inp.InVocab b) (hb : b ∈ blocks) (stale : TreeArrays K) :
    ∃ f a, inp.computeDflashSamplingAcceptLenAndBonus blocks stale = .ok f ∧ inp.Leading b a ∧
      f b = (a, (inp.bonus b a : ℤ)) := by
  obtain ⟨arrays, hgrid, hresults, -⟩ := kernelGrid_chain hsample hB blocks
    { stale with draftProbs := fun _ => 0 } hnodup hcand fun _ _ _ _ _ _ => rfl
  obtain ⟨a, hresult⟩ := hresults b hb
  rw [computeDflashSamplingAcceptLenAndBonus, if_neg (by omega), if_neg (by omega), hgrid]
  refine ⟨_, a, rfl, hresult.leading, ?_⟩
  simp only [hresult.acceptTokenNum, hresult.acceptIndex, Int.toNat_natCast, hresult.predicts]

end SamplingInput

end DraftOpd
