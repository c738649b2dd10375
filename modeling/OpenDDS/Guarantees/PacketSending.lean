import OpenDDS.Guarantees.PacketParsing
import OpenDDS.Source.SendStrategyFrame

/-!
# The packet that is being sent

How `adjust_packet_after_send` takes a packet apart: what is left in `pkt_chain_` are the
bytes that were not accepted, and what is left in `elems_` are the elements that have one
of them. This rests on the elements: the last block of each is not empty, its blocks have
different bases, and their lengths are numbers of type `int`.
-/
namespace OpenDDS.Guarantees.PacketSending

open Library Source Source.SendStrategy QueueElement

section

@[simp] theorem chainBytes_nil : chainBytes [] = [] := rfl

@[simp] theorem chainBytes_cons (b : MessageBlock) (chain : List MessageBlock) :
    chainBytes (b :: chain) = b.bytes ++ chainBytes chain := rfl

@[simp] theorem chainBytes_append (chain chain' : List MessageBlock) :
    chainBytes (chain ++ chain') = chainBytes chain ++ chainBytes chain' := by
  simp [chainBytes]

theorem toInt_of_lt {n : Nat} (h : n < 2 ^ 31) : toInt n = n := by
  unfold toInt
  rw [BitVec.toInt_eq_toNat_of_lt] <;> rw [BitVec.toNat_ofNat] <;> omega

theorem toInt_le (n : Nat) : toInt n < 0 ∨ ∃ k : Nat, toInt n = k ∧ k ≤ n := by
  by_cases hneg : toInt n < 0
  · exact .inl hneg
  · refine .inr ⟨(toInt n).toNat, by omega, ?_⟩
    have hle : (toInt n).toNat ≤ (BitVec.ofNat 32 n).toNat := by
      unfold toInt
      rw [BitVec.toInt_eq_toNat_cond]
      split_ifs <;> omega
    exact hle.trans (Nat.mod_le _ _)

end

variable {ε : Type} [QueueElement ε] {cfg : Config} {s s' : Strategy ε}

@[simp] theorem elementsBytes_cons (e : ε) (es : List ε) :
    elementsBytes (e :: es) = chainBytes (msg e) ++ elementsBytes es := by
  simp [elementsBytes]

theorem elementsBytes_length (es : List ε) : (elementsBytes es).length = elementsLength es := by
  induction es with
  | nil => rfl
  | cons e es ih =>
    rw [elementsBytes_cons, List.length_append, ih]
    simp [elementsLength, elementLength, totalLength]

structure Sendable (e : ε) : Prop where
  last : ∃ front b, msg e = front ++ [b] ∧ b.bytes ≠ []
  distinct : ((msg e).map MessageBlock.base).Nodup
  short : ∀ b ∈ msg e, b.bytes.length < 2 ^ 31

theorem sendable_iff (e : ε) : Sendable e ↔
    ((msg e).getLast?.any fun b => b.bytes ≠ []) = true ∧
      ((msg e).map MessageBlock.base).Nodup ∧ ∀ b ∈ msg e, b.bytes.length < 2 ^ 31 := by
  constructor
  · rintro ⟨⟨front, b, hmsg, hb⟩, hdistinct, hshort⟩
    exact ⟨by simp [hmsg, hb], hdistinct, hshort⟩
  · rintro ⟨hlast, hdistinct, hshort⟩
    obtain ⟨b, hb, hbytes⟩ := (Option.any_eq_true _ _).mp hlast
    obtain ⟨front, hfront⟩ := List.getLast?_eq_some_iff.mp hb
    exact ⟨⟨front, b, hfront, by simpa using hbytes⟩, hdistinct, hshort⟩

instance (e : ε) : Decidable (Sendable e) := decidable_of_iff' _ (sendable_iff e)

variable {e : ε}

theorem Sendable.last_block (h : Sendable e) (front : List MessageBlock) (b : MessageBlock)
    (hmsg : msg e = front ++ [b]) : b.bytes ≠ [] := by
  obtain ⟨front', b', hmsg', hbytes⟩ := h.last
  obtain ⟨-, hb⟩ := List.append_inj' (hmsg'.symm.trans hmsg) rfl
  cases hb
  exact hbytes

theorem tailBase_eq (front : List MessageBlock) (b : MessageBlock) (h : msg e = front ++ [b]) :
    tailBase e = b.base := by
  simp [tailBase, h]

theorem Sendable.base_ne (h : Sendable e) {front later : List MessageBlock} {b next : MessageBlock}
    (hmsg : msg e = front ++ b :: next :: later) : b.base ≠ tailBase e := by
  obtain ⟨initial, last, hlast⟩ : ∃ initial last, next :: later = initial ++ [last] :=
    ⟨_, _, (List.dropLast_append_getLast (List.cons_ne_nil next later)).symm⟩
  have hdistinct := h.distinct
  rw [hlast] at hmsg
  rw [tailBase_eq (front ++ b :: initial) last (by simp [hmsg])]
  rw [hmsg, List.map_append, List.map_cons, List.map_append] at hdistinct
  have hb := (List.nodup_cons.mp (List.nodup_append.mp hdistinct).2.1).1
  intro heq
  exact hb (by simp [heq])

/-- What is left of a packet with the elements `es` in the chain: the rest of the header and
the elements, or the blocks of the first element that were not sent and the other elements. -/
inductive Unsent : Bool → List ε → List MessageBlock → Prop
  | header (base : Nat) (bytes : List UInt8) (es : List ε) (rest : bytes ≠ [])
      (short : bytes.length < 2 ^ 31) : Unsent false es (⟨base, bytes⟩ :: es.flatMap msg)
  | element (e : ε) (es : List ε) (sent later : List MessageBlock) (b whole : MessageBlock)
      (blocks : msg e = sent ++ whole :: later) (base : b.base = whole.base)
      (length : b.bytes.length ≤ whole.bytes.length) (last : later = [] → b.bytes ≠ []) :
      Unsent true (e :: es) (b :: (later ++ es.flatMap msg))
  | done : Unsent true [] []

theorem Unsent.elements {es : List ε} (hes : ∀ e ∈ es, Sendable e) :
    Unsent true es (es.flatMap msg) := by
  cases es with
  | nil => exact .done
  | cons e es =>
    have he := hes e (by simp)
    rw [List.flatMap_cons]
    cases hmsg : msg e with
    | nil =>
      obtain ⟨front, last, hblocks, -⟩ := he.last
      simp [hmsg] at hblocks
    | cons b later =>
      refine .element e es [] later b b hmsg rfl le_rfl fun hnil => ?_
      exact he.last_block [] b (by rw [hmsg, hnil]; rfl)

theorem Unsent.short_block {complete : Bool} {es : List ε} {b : MessageBlock}
    {rest : List MessageBlock} (h : Unsent complete es (b :: rest)) (hes : ∀ e ∈ es, Sendable e) :
    b.bytes.length < 2 ^ 31 := by
  cases h with
  | header _ _ _ _ hshort => exact hshort
  | element e es sent later _ whole hblocks _ hlength _ =>
    have hwhole := (hes e (by simp)).short whole (by simp [hblocks])
    omega

theorem Unsent.shorten {complete : Bool} {es : List ε} {b : MessageBlock}
    {rest : List MessageBlock} (h : Unsent complete es (b :: rest)) {n : Nat}
    (hn : n < b.bytes.length) :
    Unsent complete es ({ b with bytes := b.bytes.drop n } :: rest) := by
  have hrest : b.bytes.drop n ≠ [] := by
    intro hnil
    have := List.drop_eq_nil_iff.mp hnil
    omega
  cases h with
  | header base bytes _ _ hshort =>
    refine .header base _ es hrest ?_
    simp only [List.length_drop]
    omega
  | element e es sent later _ whole hblocks hbase hlength _ =>
    refine .element e es sent later _ whole hblocks hbase ?_ fun _ => hrest
    simp only [List.length_drop]
    omega

theorem Unsent.behind {complete : Bool} {es : List ε} {b : MessageBlock}
    {rest : List MessageBlock} (h : Unsent complete es (b :: rest)) (hes : ∀ e ∈ es, Sendable e) :
    (complete = false ∧ Unsent true es rest) ∨
      (complete = true ∧ ∃ e later, es = e :: later ∧ b.base ≠ tailBase e ∧ Unsent true es rest) ∨
      (complete = true ∧ ∃ e later, es = e :: later ∧ b.base = tailBase e ∧
        Unsent true later rest) := by
  cases h with
  | header => exact .inl ⟨rfl, .elements hes⟩
  | element e es sent later _ whole hblocks hbase _ _ =>
    have he := hes e (by simp)
    cases later with
    | nil =>
      refine .inr (.inr ⟨rfl, e, es, rfl, ?_, .elements fun x hx => hes x (by simp [hx])⟩)
      rw [hbase, tailBase_eq sent whole hblocks]
    | cons next later =>
      refine .inr (.inl ⟨rfl, e, es, rfl, ?_, ?_⟩)
      · rw [hbase]
        exact he.base_ne hblocks
      · have hsplit : msg e = (sent ++ [whole]) ++ next :: later := by simp [hblocks]
        refine .element e es (sent ++ [whole]) later next next hsplit rfl le_rfl fun hnil => ?_
        exact he.last_block (sent ++ [whole]) next (by rw [hsplit, hnil])

def headerLeft (headerComplete : Bool) (chain : List MessageBlock) : Nat :=
  if headerComplete then 0 else (chain.head?.map fun b => b.bytes.length).getD 0

/-- The loop of `adjust_packet_after_send` for `n` bytes of a packet with the elements `left`,
behind which `extra` is collected already: the bytes are gone from the chain, and the elements
that were sent from the list. -/
structure Peeled (extra : List ε) (n : Nat) (p : Peeling ε) (left : List ε)
    (chain : List MessageBlock) (p' : Peeling ε) (left' : List ε) (chain' : List MessageBlock)
    (sent : List ε) : Prop where
  split : left = sent ++ left'
  elems : p'.elems = left' ++ extra
  unsent : Unsent p'.headerComplete left' chain'
  bytes : chainBytes chain' = (chainBytes chain).drop n
  nonHeader : p'.nonHeaderBytes = p.nonHeaderBytes + (n - headerLeft p.headerComplete chain : Nat)
  header : p'.headerComplete = false → p.headerComplete = false ∧ sent = []

theorem headerLeft_le (complete : Bool) (b : MessageBlock) (rest : List MessageBlock) :
    headerLeft complete (b :: rest) ≤ b.bytes.length := by
  cases complete <;> simp [headerLeft]

section

variable {mode : SendMode} {extra left left' sent : List ε} {n : Nat} {p p₁ p' : Peeling ε}
  {b : MessageBlock} {chain chain' rest : List MessageBlock}

theorem Peeled.after_block (taken : List ε)
    (h : Peeled extra (n - b.bytes.length) p₁ left rest p' left' chain' sent)
    (hle : b.bytes.length ≤ n) (hcomplete : p₁.headerComplete = true)
    (hnonHeader : p₁.nonHeaderBytes = p.nonHeaderBytes +
      (b.bytes.length - headerLeft p.headerComplete (b :: rest) : Nat)) :
    Peeled extra n p (taken ++ left) (b :: rest) p' left' chain' (taken ++ sent) where
  split := by rw [h.split, List.append_assoc]
  elems := h.elems
  unsent := h.unsent
  bytes := by
    rw [h.bytes, chainBytes_cons, List.drop_append, List.drop_of_length_le hle, List.nil_append]
  nonHeader := by
    have hhead := headerLeft_le p.headerComplete b rest
    have hnone : headerLeft p₁.headerComplete rest = 0 := by simp [headerLeft, hcomplete]
    rw [h.nonHeader, hnonHeader, hnone]
    omega
  header := by
    intro hincomplete
    rw [(h.header hincomplete).1] at hcomplete
    cases hcomplete

theorem Peeled.in_block (hlt : n < b.bytes.length) (bytesLeft : Int) (helems : p.elems = left ++ extra)
    (hun : Unsent p.headerComplete left (b :: rest)) :
    Peeled extra n p left (b :: rest)
      { p with
        nonHeaderBytes := if p.headerComplete then p.nonHeaderBytes + n else p.nonHeaderBytes
        bytesLeft }
      left ({ b with bytes := b.bytes.drop n } :: rest) [] where
  split := rfl
  elems := helems
  unsent := hun.shorten hlt
  bytes := by
    simp only [chainBytes_cons]
    rw [List.drop_append_of_le_length (Nat.le_of_lt hlt)]
  nonHeader := by
    cases hcomplete : p.headerComplete
    · simp [headerLeft]
      omega
    · simp [headerLeft]
  header := fun h => ⟨h, rfl⟩

theorem Peeled.none (helems : p.elems = left ++ extra) (hun : Unsent p.headerComplete left chain) :
    Peeled extra 0 p left chain p left chain [] :=
  ⟨rfl, helems, hun, rfl, by simp, fun h => ⟨h, rfl⟩⟩

theorem peel_nonpos (cfg : Config) (mode : SendMode) (chain : List MessageBlock)
    (h : p.bytesLeft ≤ 0) : peel cfg mode chain p = .ok (chain, p) := by
  cases chain <;> simp [peel, h]

theorem peel_unsent (hes : ∀ e ∈ left, Sendable e) (helems : p.elems = left ++ extra)
    (hun : Unsent p.headerComplete left chain) (hleft : p.bytesLeft = n)
    (hn : n ≤ (chainBytes chain).length) (htail : ∀ e ∈ left.head?, p.tail = tailBase e) :
    ∃ chain' p' left' sent, peel cfg mode chain p = .ok (chain', p') ∧
      Peeled extra n p left chain p' left' chain' sent := by
  induction chain generalizing p n left with
  | nil =>
    have hzero : n = 0 := by simpa using hn
    subst hzero
    exact ⟨[], p, left, [], by simp [peel, hleft], .none helems hun⟩
  | cons b rest ih =>
    by_cases hzero : n = 0
    · subst hzero
      exact ⟨b :: rest, p, left, [], by simp [peel, hleft], .none helems hun⟩
    rw [chainBytes_cons, List.length_append] at hn
    have hpos : ¬ p.bytesLeft ≤ 0 := by omega
    have hshort : b.bytes.length < 2 ^ 31 := hun.short_block hes
    rw [peel, if_neg hpos, toInt_of_lt hshort]
    by_cases hwhole : b.bytes.length ≤ n
    · rw [if_pos (by omega)]
      have hleft' : p.bytesLeft - b.bytes.length = (n - b.bytes.length : Nat) := by omega
      have hn' : n - b.bytes.length ≤ (chainBytes rest).length := by omega
      obtain ⟨elems, complete, bytesLeft, nonHeaderBytes, tail, delayed, elemsToNotify⟩ := p
      subst helems
      obtain ⟨rfl, hrest⟩ | ⟨rfl, e, later, rfl, hbase, hrest⟩ |
        ⟨rfl, e, later, rfl, hbase, hrest⟩ := hun.behind hes
      · obtain ⟨chain', p', left', sent, hpeel, hdone⟩ := ih (p := ⟨left ++ extra, true,
          bytesLeft - b.bytes.length, nonHeaderBytes, tail, delayed, elemsToNotify⟩) hes rfl hrest
          hleft' hn' htail
        exact ⟨chain', p', left', sent, hpeel,
          hdone.after_block [] hwhole rfl (by simp [headerLeft])⟩
      · obtain rfl : tail = tailBase e := htail e (by simp)
        obtain ⟨chain', p', left', sent, hpeel, hdone⟩ := ih (p := ⟨e :: later ++ extra, true,
          bytesLeft - b.bytes.length, nonHeaderBytes + b.bytes.length, tailBase e, delayed,
          elemsToNotify⟩) hes rfl hrest hleft' hn' htail
        simp only [Bool.not_true, Bool.false_eq_true, if_false, if_neg hbase]
        exact ⟨chain', p', left', sent, hpeel,
          hdone.after_block [] hwhole rfl (by simp [headerLeft])⟩
      · obtain rfl : tail = tailBase e := htail e (by simp)
        have hlater : ∀ x ∈ later, Sendable x := fun x hx => hes x (by simp [hx])
        have htail' : ∀ x ∈ later.head?,
            ((later ++ extra).head?.map tailBase).getD (tailBase e) = tailBase x := by
          intro x hx
          simp [List.head?_append, Option.mem_def.mp hx]
        simp only [Bool.not_true, Bool.false_eq_true, if_false, if_pos hbase, Peeling.extract,
          List.cons_append]
        split_ifs
        · obtain ⟨chain', p', left', sent, hpeel, hdone⟩ := ih (p := ⟨later ++ extra, true,
            bytesLeft - b.bytes.length, nonHeaderBytes + b.bytes.length,
            ((later ++ extra).head?.map tailBase).getD (tailBase e), delayed ++ [(e, mode)],
            elemsToNotify⟩) hlater rfl hrest hleft' hn' htail'
          exact ⟨chain', p', left', e :: sent, hpeel,
            hdone.after_block [e] hwhole rfl (by simp [headerLeft])⟩
        · obtain ⟨chain', p', left', sent, hpeel, hdone⟩ := ih (p := ⟨later ++ extra, true,
            bytesLeft - b.bytes.length, nonHeaderBytes + b.bytes.length,
            ((later ++ extra).head?.map tailBase).getD (tailBase e), delayed,
            elemsToNotify ++ [e]⟩) hlater rfl hrest hleft' hn' htail'
          exact ⟨chain', p', left', e :: sent, hpeel,
            hdone.after_block [e] hwhole rfl (by simp [headerLeft])⟩
    · rw [if_neg (by omega)]
      have htoNat : p.bytesLeft.toNat = n := by omega
      rw [htoNat, hleft]
      exact ⟨_, _, left, [], rfl, .in_block (by omega) 0 helems hun⟩

end

theorem elementsLength_append (es es' : List ε) :
    elementsLength (es ++ es') = elementsLength es + elementsLength es' := by
  simp [elementsLength]

theorem Sendable.length_pos (h : Sendable e) : 0 < elementLength e := by
  obtain ⟨front, b, hmsg, hb⟩ := h.last
  have hpos := List.length_pos_iff.mpr hb
  simp only [elementLength, totalLength, hmsg, chainBytes_append, chainBytes_cons, chainBytes_nil,
    List.length_append]
  omega

theorem elementsLength_eq_zero {es : List ε} (hes : ∀ e ∈ es, Sendable e) :
    elementsLength es = 0 ↔ es = [] := by
  cases es with
  | nil => simp [elementsLength]
  | cons e es =>
    have hpos := (hes e (by simp)).length_pos
    simp only [elementsLength, List.map_cons, List.sum_cons, reduceCtorEq, iff_false]
    omega

section

variable {es : List ε} {chain : List MessageBlock}

theorem Unsent.length_elements (h : Unsent true (e :: es) chain) (hes : ∀ x ∈ e :: es, Sendable x) :
    elementsLength es < (chainBytes chain).length ∧
      (chainBytes chain).length ≤ elementsLength (e :: es) := by
  cases h with
  | element _ _ sent later b whole hblocks hbase hlength hlast =>
    have hrest : (chainBytes (es.flatMap msg)).length = elementsLength es := elementsBytes_length es
    have hwhole : elementLength e = (chainBytes sent).length + whole.bytes.length +
        (chainBytes later).length := by
      simp only [elementLength, totalLength, hblocks, chainBytes_append, chainBytes_cons,
        List.length_append]
      omega
    have hpos : 0 < b.bytes.length + (chainBytes later).length := by
      cases later with
      | nil => exact Nat.add_pos_left (List.length_pos_iff.mpr (hlast rfl)) _
      | cons next later =>
        obtain ⟨front, last, hfront⟩ : ∃ front last, next :: later = front ++ [last] :=
          ⟨_, _, (List.dropLast_append_getLast (List.cons_ne_nil next later)).symm⟩
        have hend := (hes e (by simp)).last_block (sent ++ whole :: front) last
          (by rw [hblocks, hfront]; simp)
        have hlen := List.length_pos_iff.mpr hend
        rw [hfront, chainBytes_append, List.length_append]
        simp only [chainBytes_cons, chainBytes_nil, List.append_nil]
        omega
    simp only [chainBytes_cons, chainBytes_append, List.length_append, hrest, elementsLength,
      List.map_cons, List.sum_cons] at hrest ⊢
    omega

theorem Unsent.length_header (h : Unsent false es chain) :
    (chainBytes chain).length = headerLeft false chain + elementsLength es ∧
      0 < headerLeft false chain := by
  cases h with
  | header base bytes _ hrest _ =>
    have hes : (chainBytes (es.flatMap msg)).length = elementsLength es := elementsBytes_length es
    have hpos := List.length_pos_iff.mpr hrest
    simp [headerLeft, hes, hpos]

end

section

theorem bytes_length (p : Packet ε) : p.bytes.length = p.size := by
  rw [Packet.bytes, List.length_append, elementsBytes_length, Packet.size]

/-- The rest of the packet `p` is in the chain: the elements `sent` are gone and `left` are in
`elems_`, and behind them `extra`, which is collected for another packet. -/
structure Chained (s : Strategy ε) (p : Packet ε) (sent left extra : List ε) : Prop where
  elements : p.elements = sent ++ left
  elems : s.elems = left ++ extra
  waiting : left ≠ []
  unsent : Unsent s.headerComplete left s.pktChain
  bytes : chainBytes s.pktChain = p.bytes.drop p.accepted
  header : s.headerComplete = false → sent = []
  length : s.header.length.toNat = (p.size - max p.accepted p.header.length) + elementsLength extra
  headed : p.header ≠ []

/-- No packet is in the chain, and `extra` is collected for the next one. -/
structure Rests (s : Strategy ε) (extra : List ε) : Prop where
  chain : s.pktChain = []
  elems : s.elems = extra
  length : s.header.length.toNat = elementsLength extra

variable {p : Packet ε} {sent left extra : List ε}

theorem Rests.length_eq_zero (h : Rests s extra) (hes : ∀ e ∈ extra, Sendable e) :
    s.header.length = 0 ↔ extra = [] := by
  rw [← elementsLength_eq_zero hes, ← h.length, ← BitVec.toNat_inj]
  rfl

section

variable (h : Chained s p sent left extra)
include h

theorem Chained.chain_length : (chainBytes s.pktChain).length = p.size - p.accepted := by
  rw [h.bytes, List.length_drop, bytes_length]

theorem Chained.size : p.size = p.header.length + elementsLength sent + elementsLength left := by
  rw [Packet.size, h.elements, elementsLength_append, Nat.add_assoc]

theorem Chained.pos (hes : ∀ e ∈ left, Sendable e) : p.accepted < p.size ∧ s.pktChain ≠ [] ∧
      headerLeft s.headerComplete s.pktChain = p.header.length - p.accepted ∧
      max p.accepted p.header.length < p.size := by
  have hlength := h.chain_length
  have hsize := h.size
  have hun := h.unsent
  have hsent := h.header
  cases hcomplete : s.headerComplete with
  | false =>
    rw [hcomplete] at hun
    obtain ⟨htotal, hpos⟩ := hun.length_header
    have hleft : elementsLength left ≠ 0 := fun h0 => h.waiting ((elementsLength_eq_zero hes).mp h0)
    refine ⟨by omega, ?_, ?_, ?_⟩
    · intro hnil
      rw [hnil] at hpos
      simp [headerLeft] at hpos
    · rw [hsent hcomplete] at hsize
      simp only [elementsLength, List.map_nil, List.sum_nil] at hsize htotal
      omega
    · omega
  | true =>
    rw [hcomplete] at hun
    obtain ⟨e, later, rfl⟩ := List.exists_cons_of_ne_nil h.waiting
    obtain ⟨hlow, hhigh⟩ := hun.length_elements hes
    refine ⟨by omega, ?_, ?_, by omega⟩
    · intro hnil
      rw [hnil] at hlow
      simp at hlow
    · simp only [headerLeft, if_true]
      omega

theorem Chained.fresh (hes : ∀ e ∈ left, Sendable e) (hnone : p.accepted = 0) :
    s.header.length.toNat = elementsLength s.elems := by
  have hhead := (h.pos hes).2.2.1
  have hpos := List.length_pos_iff.mpr h.headed
  have hincomplete : s.headerComplete = false := by
    cases hcomplete : s.headerComplete
    · rfl
    · rw [hcomplete] at hhead
      simp only [headerLeft, if_true] at hhead
      omega
  have hsize := h.size
  rw [h.header hincomplete] at hsize
  rw [h.length, h.elems, elementsLength_append, hsize, hnone]
  simp [elementsLength]

end

/-- The first of the elements whose bytes are all among the first `n`. -/
def sentElements : Nat → List ε → List ε
  | _, [] => []
  | n, e :: es => if elementLength e ≤ n then e :: sentElements (n - elementLength e) es else []

def sentOf (p : Packet ε) : List ε := sentElements (p.accepted - p.header.length) p.elements

theorem sentElements_all (es : List ε) : sentElements (elementsLength es) es = es := by
  induction es with
  | nil => rfl
  | cons e es ih =>
    have hsum : elementsLength (e :: es) = elementLength e + elementsLength es := by
      simp [elementsLength]
    rw [sentElements, if_pos (by omega), hsum, Nat.add_sub_cancel_left, ih]

theorem sentOf_full {p : Packet ε} (h : p.accepted = p.size) : sentOf p = p.elements := by
  rw [sentOf, h, Packet.size, Nat.add_sub_cancel_left, sentElements_all]

theorem sentElements_append (es : List ε) {later : List ε} {n : Nat} (hn : n < elementLength e) :
    sentElements (elementsLength es + n) (es ++ e :: later) = es := by
  induction es with
  | nil => simp [sentElements, elementsLength, hn]
  | cons x es ih =>
    have hsum : elementsLength (x :: es) = elementLength x + elementsLength es := by
      simp [elementsLength]
    have hrest : elementsLength (x :: es) + n - elementLength x = elementsLength es + n := by omega
    rw [List.cons_append, sentElements, if_pos (by omega), hrest, ih]

theorem Chained.sentOf_eq (h : Chained s p sent left extra) (hes : ∀ e ∈ left, Sendable e) :
    sentOf p = sent := by
  have hlength := h.chain_length
  have hsize := h.size
  have hpos := h.pos hes
  have hhead := hpos.2.2.1
  have hun := h.unsent
  obtain ⟨e, later, rfl⟩ := List.exists_cons_of_ne_nil h.waiting
  have hsum : elementsLength (e :: later) = elementLength e + elementsLength later := by
    simp [elementsLength]
  have hfirst := (hes e (by simp)).length_pos
  rw [sentOf, h.elements]
  cases hcomplete : s.headerComplete with
  | false =>
    rw [hcomplete] at hun hhead
    have hheader := hun.length_header
    rw [h.header hcomplete]
    have hzero : p.accepted - p.header.length = 0 := by omega
    rw [hzero, List.nil_append, sentElements, if_neg (by omega)]
  | true =>
    rw [hcomplete] at hun hhead
    obtain ⟨hlow, hhigh⟩ := hun.length_elements hes
    have hcount : p.accepted - p.header.length =
        elementsLength sent + (elementLength e + elementsLength later - (p.size - p.accepted)) := by
      omega
    rw [hcount]
    exact sentElements_append sent (by omega)

structure SamePacket (s s' : Strategy ε) : Prop where
  queue : s'.queue = s.queue
  elems : s'.elems = s.elems
  header : s'.header = s.header
  chain : s'.pktChain = s.pktChain
  complete : s'.headerComplete = s.headerComplete
  packets : s'.packets = s.packets
  current : s'.current = s.current
  accepted : s'.accepted = s.accepted

theorem Chained.same {p : Packet ε} {sent left : List ε} (h : Chained s p sent left extra)
    (hsame : SamePacket s s') : Chained s' p sent left extra where
  elements := h.elements
  elems := hsame.elems.trans h.elems
  waiting := h.waiting
  unsent := by
    rw [hsame.complete, hsame.chain]
    exact h.unsent
  bytes := by
    rw [hsame.chain]
    exact h.bytes
  header := by
    rw [hsame.complete]
    exact h.header
  length := by
    rw [hsame.header]
    exact h.length
  headed := h.headed

theorem sub_toNat {length : BitVec 32} {k : Nat} (hk : k ≤ length.toNat) :
    (length - BitVec.ofInt 32 (k : Int)).toNat = length.toNat - k := by
  have hlt : k < 2 ^ 32 := Nat.lt_of_le_of_lt hk length.isLt
  rw [BitVec.ofInt_natCast, BitVec.toNat_sub_of_le, BitVec.toNat_ofNat, Nat.mod_eq_of_lt hlt]
  rw [BitVec.le_def, BitVec.toNat_ofNat, Nat.mod_eq_of_lt hlt]
  exact hk

/-- `adjust_packet_after_send` for `n` bytes of the packet: `p'` is the packet of which they are
accepted. -/
structure Adjusted (p p' : Packet ε) (sent left extra : List ε) (s s' : Strategy ε)
    (taken left' : List ε) : Prop where
  split : left = taken ++ left'
  accepted : s'.accepted = s.accepted
  packets : s'.packets = s.packets
  current : s'.current = s.current
  header : s'.header = { s.header with length := s'.header.length }
  left : (left' ≠ [] ∧ Chained s' p' (sent ++ taken) left' extra) ∨
    (left' = [] ∧ p'.accepted = p.size ∧ Rests s' extra)

theorem adjust_chained (cfg : Config) (h : Chained s p sent left extra) (hes : ∀ e ∈ left, Sendable e) {n : Nat}
    (p' : Packet ε) (hn : p.accepted + n ≤ p.size) (hheader : p'.header = p.header)
    (helements : p'.elements = p.elements) (haccepted : p'.accepted = p.accepted + n) :
    ∃ s' taken left', s.adjustPacketAfterSend cfg n = .ok (decide (s'.header.length ≠ 0), s') ∧
      Adjusted p p' sent left extra s s' taken left' := by
  obtain ⟨hlt, hchain, hhead, hmax⟩ := h.pos hes
  have hlength := h.chain_length
  obtain ⟨e, later, rfl⟩ := List.exists_cons_of_ne_nil h.waiting
  obtain ⟨chain', q, left', taken, hpeel, hdone⟩ := peel_unsent
    (p := ⟨s.elems, s.headerComplete, n, 0, tailBase e, s.delayed, []⟩) hes h.elems h.unsent rfl
    (by omega) (by simp)
  refine ⟨s.adjusted chain' q, taken, left', adjustPacketAfterSend_eq h.elems hpeel, hdone.split,
    rfl, rfl, rfl, rfl, ?_⟩
  have hcount : (s.adjusted chain' q).header.length.toNat =
      (p.size - max (p.accepted + n) p.header.length) + elementsLength extra := by
    have hnonHeader := hdone.nonHeader
    simp only [hhead, Int.zero_add] at hnonHeader
    have hbefore := h.length
    simp only [Strategy.adjusted, hnonHeader]
    rw [sub_toNat (by omega)]
    omega
  have hbytes : chainBytes chain' = p.bytes.drop (p.accepted + n) := by
    rw [hdone.bytes, h.bytes, List.drop_drop]
  by_cases hnil : left' = []
  · refine .inr ⟨hnil, ?_, ?_, ?_, ?_⟩
    all_goals
      have hun := hdone.unsent
      rw [hnil] at hun
      have hempty : chain' = [] := by
        cases hcomplete : q.headerComplete with
        | false =>
          have hsplit := hdone.split
          rw [hnil, (hdone.header hcomplete).2] at hsplit
          cases hsplit
        | true =>
          rw [hcomplete] at hun
          cases hun
          rfl
      have hlen := congrArg List.length hbytes
      rw [hempty, chainBytes_nil, List.length_nil, List.length_drop, bytes_length] at hlen
    · omega
    · exact hempty
    · exact (hdone.elems.trans (by rw [hnil, List.nil_append]) : q.elems = extra)
    · omega
  · refine .inl ⟨hnil, ?_, hdone.elems, hnil, hdone.unsent, ?_, ?_, ?_, hheader ▸ h.headed⟩
    · rw [helements, h.elements, hdone.split, List.append_assoc]
    · rw [Packet.bytes, hheader, helements, haccepted, ← Packet.bytes]
      exact hbytes
    · intro hincomplete
      obtain ⟨hbefore, htaken⟩ := hdone.header hincomplete
      rw [h.header hbefore, htaken]
      rfl
    · rw [Packet.size, hheader, helements, haccepted, ← Packet.size]
      exact hcount

theorem offered_take (chain : List MessageBlock) {n : Nat}
    (hn : n ≤ (chainBytes (offered cfg chain)).length) :
    (chainBytes (offered cfg chain)).take n = (chainBytes chain).take n ∧
      n ≤ (chainBytes chain).length := by
  have hsplit : chainBytes chain =
      chainBytes (offered cfg chain) ++ chainBytes (chain.drop cfg.maxSendBlocks) := by
    rw [← chainBytes_append, offered, List.take_append_drop]
  rw [hsplit, List.length_append, List.take_append_of_le_length hn]
  exact ⟨rfl, by omega⟩

/-- The packet when `send_bytes` was handed the blocks of `s` and accepted `n` bytes. -/
def handOver (cfg : Config) (s : Strategy ε) (n : Nat) (p : Packet ε) : Packet ε :=
  { p with
    accepted := p.accepted + n
    handed := max p.handed (p.accepted + (chainBytes (offered cfg s.pktChain)).length) }

/-- A packet of which `n` bytes are accepted is sent in part or completely. -/
structure SendsBytes (cfg : Config) (n : Nat) (p : Packet ε) (sent left extra : List ε)
    (s s' : Strategy ε) (outcome : Outcome) (taken left' : List ε) : Prop where
  split : left = taken ++ left'
  accepted : s'.accepted = s.accepted ++ (p.bytes.drop p.accepted).take n
  packets : s'.packets = s.packets
  current : s'.current = some (handOver cfg s n p)
  header : s'.header = { s.header with length := s'.header.length }
  left : (left' ≠ [] ∧ p.accepted + n < p.size ∧ outcome = .partialSend ∧
      Chained s' (handOver cfg s n p) (sent ++ taken) left' extra) ∨
    (left' = [] ∧ p.accepted + n = p.size ∧ Rests s' extra ∧
      outcome = if extra = [] then .completeSend else .partialSend)

theorem sendPacket_chained (cfg : Config) (hcurrent : s.current = some p) (h : Chained s p sent left extra)
    (hes : ∀ e ∈ left ++ extra, Sendable e) {n : Nat} (hpos : 0 < n)
    (hn : n ≤ (chainBytes (offered cfg s.pktChain)).length) :
    ∃ outcome s' taken left', s.sendPacket cfg (.sent n) = .ok (outcome, s') ∧
      SendsBytes cfg n p sent left extra s s' outcome taken left' := by
  obtain ⟨htake, hle⟩ := offered_take s.pktChain hn
  have hesLeft : ∀ e ∈ left, Sendable e := fun e he => hes e (by simp [he])
  have hesExtra : ∀ e ∈ extra, Sendable e := fun e he => hes e (by simp [he])
  obtain ⟨hlt, hchain, -, -⟩ := h.pos hesLeft
  have hlength := h.chain_length
  have hchained : Chained ((s.hand cfg).accept cfg n) p sent left extra :=
    ⟨h.elements, h.elems, h.waiting, h.unsent, h.bytes, h.header, h.length, h.headed⟩
  obtain ⟨s', taken, left', hadjust, hdone⟩ := adjust_chained cfg hchained hesLeft
    (handOver cfg s n p) (by omega) rfl rfl rfl
  refine ⟨_, s', taken, left', by rw [sendPacket_adjusted hchain hpos hn, hadjust]; rfl, hdone.split, ?_,
    hdone.packets, ?_, hdone.header, ?_⟩
  · rw [hdone.accepted, ← h.bytes, ← htake]
    rfl
  · rw [hdone.current]
    simp [Strategy.accept, Strategy.hand, hcurrent, handOver]
  · obtain ⟨hsome, hrest⟩ | ⟨hnone, hall, hrest⟩ := hdone.left
    · have hlater := hrest.pos fun e he => hesLeft e (by simp [hdone.split, he])
      have hmore : s'.header.length ≠ 0 := by
        intro hzero
        have hcount := hrest.length
        rw [hzero] at hcount
        simp at hcount
        omega
      exact .inl ⟨hsome, hlater.1, if_pos (decide_eq_true hmore), hrest⟩
    · refine .inr ⟨hnone, hall, hrest, ?_⟩
      by_cases hextra : extra = []
      · rw [if_pos hextra, if_neg]
        simp [(hrest.length_eq_zero hesExtra).mpr hextra]
      · rw [if_neg hextra, if_pos]
        exact decide_eq_true fun hzero => hextra ((hrest.length_eq_zero hesExtra).mp hzero)

/-- What is kept of a packet: bytes are accepted only behind those before them and after they
were handed to `send_bytes`, which was handed the whole header first. -/
structure Tracked (cfg : Config) (p : Packet ε) : Prop where
  header : ∃ h : TransportHeader.Header, h.valid = true ∧
    p.header = PacketParsing.transportBytes cfg.host h
  rebuilt : p.rebuilt = false
  accepted : p.accepted ≤ p.size
  handed : p.accepted ≤ p.handed
  begun : p.handed = 0 ∨ p.header.length ≤ p.handed

/-- The bytes that were accepted are those of the packets, one after another. -/
structure Recorded (cfg : Config) (s : Strategy ε) : Prop where
  packets : ∀ p ∈ s.packets ++ s.current.toList, Tracked cfg p
  stream : s.accepted = (s.packets ++ s.current.toList).flatMap fun p => p.bytes.take p.accepted

theorem Recorded.kept (h : Recorded cfg s) (hpackets : s'.packets = s.packets)
    (hcurrent : s'.current = s.current) (haccepted : s'.accepted = s.accepted) : Recorded cfg s' where
  packets := by
    rw [hpackets, hcurrent]
    exact h.packets
  stream := by
    rw [hpackets, hcurrent, haccepted]
    exact h.stream

theorem Recorded.same (h : Recorded cfg s) (hsame : SamePacket s s') : Recorded cfg s' :=
  h.kept hsame.packets hsame.current hsame.accepted

theorem Recorded.leave (h : Recorded cfg s) (hpackets : s'.packets = s.packets ++ s.current.toList)
    (hcurrent : s'.current = none) (haccepted : s'.accepted = s.accepted) : Recorded cfg s' where
  packets := by
    rw [hpackets, hcurrent]
    simpa using h.packets
  stream := by
    rw [hpackets, hcurrent, haccepted, h.stream]
    simp

theorem Recorded.prepare (h : Recorded cfg s) {p' : Packet ε}
    (hpackets : s'.packets = s.packets ++ s.current.toList) (hcurrent : s'.current = some p')
    (haccepted : s'.accepted = s.accepted) (hnone : p'.accepted = 0) (hp' : Tracked cfg p') :
    Recorded cfg s' where
  packets := by
    intro q hq
    rw [hpackets, hcurrent, Option.toList_some, List.mem_append, List.mem_singleton] at hq
    rcases hq with hq | rfl
    · exact h.packets q hq
    · exact hp'
  stream := by
    rw [hpackets, hcurrent, haccepted, h.stream]
    simp [hnone]

theorem Recorded.accept (h : Recorded cfg s) (hcurrent : s.current = some p) {p' : Packet ε} {n : Nat}
    (hpackets : s'.packets = s.packets) (hcurrent' : s'.current = some p')
    (haccepted : s'.accepted = s.accepted ++ (p.bytes.drop p.accepted).take n)
    (hbytes : p'.bytes = p.bytes) (hn : p'.accepted = p.accepted + n) (hp' : Tracked cfg p') :
    Recorded cfg s' where
  packets := by
    intro q hq
    rw [hpackets, hcurrent', Option.toList_some, List.mem_append, List.mem_singleton] at hq
    rcases hq with hq | rfl
    · exact h.packets q (by simp [hq])
    · exact hp'
  stream := by
    have hstream := h.stream
    rw [hcurrent, Option.toList_some, List.flatMap_append, List.flatMap_singleton] at hstream
    rw [hpackets, hcurrent', haccepted, hstream, Option.toList_some, List.flatMap_append,
      List.flatMap_singleton, hbytes, hn, List.take_add, List.append_assoc]

theorem Chained.offers (cfg : Config) (h : Chained s p sent left extra)
    (hes : ∀ e ∈ left, Sendable e) (hnone : p.accepted = 0) :
    (chainBytes (offered cfg s.pktChain)).length = 0 ∨
      p.header.length ≤ (chainBytes (offered cfg s.pktChain)).length := by
  obtain ⟨-, hchain, hhead, -⟩ := h.pos hes
  obtain ⟨b, rest, hblocks⟩ := List.exists_cons_of_ne_nil hchain
  have hle : headerLeft s.headerComplete s.pktChain ≤ b.bytes.length := by
    rw [hblocks]
    exact headerLeft_le _ b rest
  rw [hblocks]
  unfold offered
  cases cfg.maxSendBlocks with
  | zero => exact .inl rfl
  | succ k =>
    refine .inr ?_
    rw [List.take_succ_cons, chainBytes_cons, List.length_append]
    omega

theorem Tracked.handOver (hp : Tracked cfg p) (h : Chained s p sent left extra)
    (hes : ∀ e ∈ left, Sendable e) {n : Nat}
    (hn : n ≤ (chainBytes (offered cfg s.pktChain)).length) : Tracked cfg (handOver cfg s n p) where
  header := hp.header
  rebuilt := hp.rebuilt
  accepted := by
    have hle := (offered_take s.pktChain hn).2
    have hlt := (h.pos hes).1
    rw [h.chain_length] at hle
    simp only [PacketSending.handOver, Packet.size] at *
    omega
  handed := by
    simp only [PacketSending.handOver]
    omega
  begun := by
    have hhanded := hp.handed
    have hbegun := hp.begun
    have hoffers := h.offers cfg hes
    simp only [PacketSending.handOver]
    omega

theorem marshalTransportHeader_eq {host : ByteOrder} {h : TransportHeader.Header}
    (horder : h.byteOrder = DataSampleHeader.aceCdrByteOrder host) :
    marshalTransportHeader host h = PacketParsing.transportBytes host h := by
  obtain ⟨w, hok, -, hwritten⟩ : ∃ w, TransportHeader.marshal host
      ⟨0, List.replicate TransportHeader.maxMarshaledSize 0⟩ h = .ok w ∧ w.goodBit = true ∧
      w.written = PacketParsing.transportBytes host h :=
    PacketParsing.transportMarshal_ok host h horder (by simp)
  simp only [marshalTransportHeader, hok, hwritten]

theorem add_toNat {length : BitVec 32} {n : Nat} (h : length.toNat + n < 2 ^ 32) :
    (length + BitVec.ofNat 32 n).toNat = length.toNat + n := by
  rw [BitVec.toNat_add, BitVec.toNat_ofNat]
  omega

def sizeLimit (cfg : Config) : Nat :=
  if cfg.maxMessageSize = 0 then cfg.maxSize else min cfg.maxSize cfg.maxMessageSize

omit [QueueElement ε] in
theorem spaceAvailable_eq
    (hroom : TransportHeader.maxMarshaledSize + s.header.length.toNat ≤ sizeLimit cfg) :
    s.spaceAvailable cfg = sizeLimit cfg - (TransportHeader.maxMarshaledSize + s.header.length.toNat) := by
  unfold sizeLimit at hroom ⊢
  simp only [Strategy.spaceAvailable, sizeSub]
  split_ifs at * <;> omega

/-- The elements that a strategy can send: they are recognized, and if packets are limited the
parts too into which they are cut, none of them smaller than `least` bytes. -/
inductive Piece (least : Nat) (e : ε) : ε → Prop
  | whole : Piece least e e
  | head (x : ε) (n : Nat) (piece : Piece least e x) (size : least ≤ n) (cut : n < elementLength x) :
      Piece least e (fragment x n).1
  | tail (x : ε) (n : Nat) (piece : Piece least e x) (size : least ≤ n) (cut : n < elementLength x) :
      Piece least e (fragment x n).2

structure Suits (cfg : Config) (least : Nat) (e : ε) : Prop where
  sendable : Sendable e
  pieces : cfg.maxMessageSize ≠ 0 → ∀ x, Piece least e x → Sendable x
  fits : cfg.maxMessageSize ≠ 0 → ∀ x n, Piece least e x → least ≤ n → n < elementLength x →
    elementLength (fragment x n).1 ≤ n

theorem Suits.of_sendable (hsize : cfg.maxMessageSize = 0) (h : Sendable e) (least : Nat) :
    Suits cfg least e :=
  ⟨h, fun hnot => absurd hsize hnot, fun hnot => absurd hsize hnot⟩

/-- A configuration whose packets have room for a header and a part of an element. -/
structure Roomy (cfg : Config) (least : Nat) : Prop where
  word : cfg.maxSize < 2 ^ 32
  room : cfg.maxMessageSize ≠ 0 →
    TransportHeader.maxMarshaledSize + (DataSampleHeader.maxMarshaledSize + minFrag) ≤ sizeLimit cfg
  least : least ≤ DataSampleHeader.maxMarshaledSize + minFrag

variable {least : Nat}

theorem Roomy.limit_lt (h : Roomy cfg least) : sizeLimit cfg < 2 ^ 32 := by
  have hword := h.word
  unfold sizeLimit
  split_ifs <;> omega

theorem Piece.trans {e x y : ε} (h : Piece least e x) (h' : Piece least x y) : Piece least e y := by
  induction h' with
  | whole => exact h
  | head x n _ size cut ih => exact .head x n ih size cut
  | tail x n _ size cut ih => exact .tail x n ih size cut

theorem Suits.piece {e x : ε} (h : Suits cfg least e) (hcut : cfg.maxMessageSize ≠ 0)
    (hx : Piece least e x) : Suits cfg least x :=
  ⟨h.pieces hcut x hx, fun _ y hy => h.pieces hcut y (hx.trans hy),
    fun _ y n hy => h.fits hcut y n (hx.trans hy)⟩

theorem Suits.head {n : Nat} (h : Suits cfg least e) (hcut : cfg.maxMessageSize ≠ 0)
    (hn : least ≤ n) (hlt : n < elementLength e) :
    Suits cfg least (fragment e n).1 ∧ elementLength (fragment e n).1 ≤ n :=
  ⟨h.piece hcut (.head e n .whole hn hlt), h.fits hcut e n .whole hn hlt⟩

theorem Suits.tail {n : Nat} (h : Suits cfg least e) (hcut : cfg.maxMessageSize ≠ 0)
    (hn : least ≤ n) (hlt : n < elementLength e) : Suits cfg least (fragment e n).2 :=
  h.piece hcut (.tail e n .whole hn hlt)

/-- Whether an element is cut only where at least `least` bytes are left in the packet that is
filled from the queue. -/
def cutsWell (cfg : Config) (least : Nat) : List ε → Strategy ε → Prop
  | [], _ => True
  | e :: rest, s =>
    if s.spaceAvailable cfg < elementLength e then
      cfg.maxMessageSize ≠ 0 → least ≤ s.spaceAvailable cfg
    else if requiresExclusivePacket e || (s.take e rest).elems.length = cfg.maxSamples ||
        cfg.optimumSize ≤ (s.take e rest).header.length.toNat then True
    else cutsWell cfg least rest (s.take e rest)

theorem cutsWell_whole (hsize : cfg.maxMessageSize = 0) (least : Nat) (es : List ε)
    (s : Strategy ε) : cutsWell cfg least es s := by
  induction es generalizing s with
  | nil => trivial
  | cons e rest ih =>
    unfold cutsWell
    split_ifs
    · exact fun hnot => absurd hsize hnot
    · exact ih _

structure Gathers (cfg : Config) (least : Nat) (es : List ε) (s s' : Strategy ε)
    (taken : List ε) : Prop where
  eq : s' = { s with queue := s'.queue, elems := s.elems ++ taken, header := s'.header }
  order : form s'.header = form s.header
  length : s'.header.length.toNat = s.header.length.toNat + elementsLength taken
  room : s'.header.length.toNat = 0 ∨
    TransportHeader.maxMarshaledSize + s'.header.length.toNat ≤ sizeLimit cfg
  suits : ∀ e ∈ s'.queue ++ taken, Suits cfg least e
  whole : cfg.maxMessageSize = 0 → es = taken ++ s'.queue
  some : s.elems = [] → ∀ e ∈ es.head?,
    (cfg.maxMessageSize = 0 → elementLength e ≤ s.spaceAvailable cfg) → taken ≠ []

theorem Gathers.none {rest : List ε} (hes : ∀ x ∈ e :: rest, Suits cfg least x)
    (hroom : TransportHeader.maxMarshaledSize + s.header.length.toNat ≤ sizeLimit cfg)
    (hblocked : s.elems = [] → cfg.maxMessageSize = 0 ∧ s.spaceAvailable cfg < elementLength e) :
    Gathers cfg least (e :: rest) s { s with queue := e :: rest } [] where
  eq := by simp
  order := rfl
  length := rfl
  room := Or.inr hroom
  suits := by simpa using hes
  whole := fun _ => rfl
  some := by
    intro hnone x hx hspace
    obtain rfl : e = x := by simpa using hx
    have hblock := hblocked hnone
    omega

theorem Gathers.take {rest : List ε} {taken : List ε} (he : Suits cfg least e)
    (hcount : (s.take e rest).header.length.toNat = s.header.length.toNat + elementLength e)
    (h : Gathers cfg least rest (s.take e rest) s' taken) :
    Gathers cfg least (e :: rest) s s' (e :: taken) where
  eq := by
    rw [h.eq, (take_eq e rest s).1]
    simp
  order := h.order.trans (take_eq e rest s).2.2
  length := by
    rw [h.length, hcount]
    simp [elementsLength, Nat.add_assoc]
  room := h.room
  suits := by
    intro x hx
    simp only [List.mem_append, List.mem_cons] at hx
    rcases hx with hx | rfl | hx
    · exact h.suits x (by simp [hx])
    · exact he
    · exact h.suits x (by simp [hx])
  whole := fun hsize => by
    rw [h.whole hsize]
    rfl
  some := by simp

theorem cut_gathers {rest : List ε} {n : Nat} (hcfg : Roomy cfg least)
    (hes : ∀ x ∈ e :: rest, Suits cfg least x) (hsize : cfg.maxMessageSize ≠ 0) (hn : least ≤ n)
    (hlt : n < elementLength e)
    (hroom : TransportHeader.maxMarshaledSize + s.header.length.toNat + n ≤ sizeLimit cfg) :
    ∃ taken, Gathers cfg least (e :: rest) s (s.cut e n rest) taken := by
  obtain ⟨hhead, hle⟩ := (hes e (by simp)).head hsize hn hlt
  have htail := (hes e (by simp)).tail hsize hn hlt
  have hlimit := hcfg.limit_lt
  have hsuits : ∀ x ∈ (fragment e n).2 :: rest, Suits cfg least x := by
    intro x hx
    simp only [List.mem_cons] at hx
    rcases hx with rfl | hx
    · exact htail
    · exact hes x (by simp [hx])
  by_cases hskips : requiresExclusivePacket e = true ∧ s.elems ≠ []
  · refine ⟨[], ?_⟩
    have heq : s.cut e n rest = { s with
        header := { s.header with firstFragment := !isFragment e }
        queue := (fragment e n).2 :: rest } := if_pos hskips
    rw [heq]
    exact ⟨by simp, rfl, rfl, .inr (by simp only; omega), by simpa using hsuits,
      fun h => absurd h hsize, fun hnone => absurd hnone hskips.2⟩
  · refine ⟨[(fragment e n).1], ?_⟩
    have hlength : (s.cut e n rest).header.length =
          s.header.length + BitVec.ofNat 32 (elementLength (fragment e n).1) ∧
        s.cut e n rest = { s with
          queue := (fragment e n).2 :: rest
          elems := s.elems ++ [(fragment e n).1]
          header := (s.cut e n rest).header } ∧
        form (s.cut e n rest).header = form s.header := by
      unfold Strategy.cut Strategy.putElement
      simp only [if_neg hskips]
      split_ifs <;> exact ⟨rfl, rfl, rfl⟩
    obtain ⟨hlength, heq, horder⟩ := hlength
    have hqueue : (s.cut e n rest).queue = (fragment e n).2 :: rest := by rw [heq]
    have hcount : (s.cut e n rest).header.length.toNat =
        s.header.length.toNat + elementLength (fragment e n).1 := by
      rw [hlength, add_toNat (by omega)]
    refine ⟨by rw [hqueue]; exact heq, horder, ?_, .inr (by omega), ?_, fun h => absurd h hsize,
      by simp⟩
    · rw [hcount]
      simp [elementsLength]
    · intro x hx
      rw [hqueue] at hx
      simp only [List.mem_append, List.mem_singleton] at hx
      rcases hx with hx | rfl
      · exact hsuits x hx
      · exact hhead

theorem getPacketElems_gathers (hcfg : Roomy cfg least) (es : List ε) (s : Strategy ε)
    (hes : ∀ e ∈ es, Suits cfg least e) (hcuts : cutsWell cfg least es s)
    (hroom : TransportHeader.maxMarshaledSize + s.header.length.toNat ≤ sizeLimit cfg) :
    ∃ taken, Gathers cfg least es s (getPacketElems cfg es s) taken := by
  have hlimit := hcfg.limit_lt
  induction es generalizing s with
  | nil => exact ⟨[], by simp [getPacketElems], rfl, rfl, .inr hroom, nofun, fun _ => rfl, nofun⟩
  | cons e rest ih =>
    have hspace := spaceAvailable_eq hroom
    unfold cutsWell at hcuts
    by_cases hlarge : s.spaceAvailable cfg < elementLength e
    · rw [if_pos hlarge] at hcuts
      by_cases hsize : cfg.maxMessageSize = 0
      · rw [getPacketElems_stops rest hsize hlarge]
        exact ⟨[], .none hes hroom fun _ => ⟨hsize, hlarge⟩⟩
      · rw [getPacketElems_cut rest hsize hlarge]
        exact cut_gathers hcfg hes hsize (hcuts hsize) hlarge (by omega)
    · have hfits : elementLength e ≤ s.spaceAvailable cfg := Nat.le_of_not_lt hlarge
      have hcount : (s.take e rest).header.length.toNat = s.header.length.toNat + elementLength e := by
        rw [(take_eq e rest s).2.1, add_toNat (by omega)]
      have hroom' : TransportHeader.maxMarshaledSize + (s.take e rest).header.length.toNat ≤
          sizeLimit cfg := by omega
      have hrest : ∀ x ∈ rest, Suits cfg least x := fun x hx => hes x (by simp [hx])
      rw [getPacketElems_fits rest hfits]
      by_cases hskips : requiresExclusivePacket e = true ∧ s.elems ≠ []
      · rw [if_pos hskips]
        exact ⟨[], .none hes hroom fun hnone => absurd hnone hskips.2⟩
      · split_ifs at hcuts ⊢ with hstop
        · refine ⟨[e], .take (hes e (by simp)) hcount ⟨?_, rfl, rfl, .inr hroom', ?_, ?_, ?_⟩⟩
          · simp
          · have hqueue : (s.take e rest).queue = rest := by rw [(take_eq e rest s).1]
            rw [hqueue]
            simpa using hrest
          · intro _
            rw [(take_eq e rest s).1]
            rfl
          · rw [(take_eq e rest s).1]
            simp
        · obtain ⟨taken, hgathers⟩ := ih (s.take e rest) hrest hcuts hroom'
          exact ⟨e :: taken, .take (hes e (by simp)) hcount hgathers⟩

/-- The packet that `prepare_packet` makes. -/
structure Prepares (cfg : Config) (s : Strategy ε) (p : Packet ε) : Prop where
  current : (s.preparePacket cfg).current = some p
  elements : p.elements = s.elems
  accepted : p.accepted = 0
  handed : p.handed = 0
  rebuilt : p.rebuilt = s.partlySent
  header : ∃ h : TransportHeader.Header, h.valid = true ∧
    p.header = PacketParsing.transportBytes cfg.host h
  chained : Chained (s.preparePacket cfg) p [] s.elems []

theorem Prepares.tracked {p : Packet ε} (h : Prepares cfg s p) (hwhole : s.partlySent = false) :
    Tracked cfg p where
  header := h.header
  rebuilt := h.rebuilt.trans hwhole
  accepted := by
    rw [h.accepted]
    exact Nat.zero_le _
  handed := by rw [h.accepted, h.handed]
  begun := Or.inl h.handed

theorem preparePacket_chained (cfg : Config)
    (horder : form s.header = form (TransportHeader.create cfg.host))
    (hne : s.elems ≠ []) (hlength : s.header.length.toNat = elementsLength s.elems) :
    ∃ p, Prepares cfg s p := by
  let next := SequenceNumber.next s.headerSequence
  let header := { s.header with
    sequenceHigh := BitVec.ofInt 32 (next / SequenceNumber.lowBase)
    sequenceLow := BitVec.ofInt 32 next }
  have hbytes : marshalTransportHeader cfg.host header = PacketParsing.transportBytes cfg.host header :=
    marshalTransportHeader_eq (Prod.mk.inj horder).1
  have hsize := PacketParsing.transportBytes_length cfg.host header
  have hvalid : header.valid = true := decide_eq_true (Prod.mk.inj horder).2
  have hheaded : marshalTransportHeader cfg.host header ≠ [] := by
    rw [hbytes]
    intro hnil
    rw [hnil] at hsize
    cases hsize
  refine ⟨⟨marshalTransportHeader cfg.host header, s.elems, 0, 0, s.partlySent⟩, rfl, rfl, rfl, rfl,
    rfl, ⟨header, hvalid, hbytes⟩, rfl, by simp [Strategy.preparePacket], hne, ?_, ?_, fun _ => rfl, ?_,
    hheaded⟩
  · refine Unsent.header 0 (marshalTransportHeader cfg.host header) s.elems hheaded ?_
    rw [hbytes, hsize]
    decide
  · rfl
  · simp only [Packet.size, elementsLength, List.map_nil, List.sum_nil, Nat.zero_max]
    simp only [elementsLength] at hlength
    exact hlength.trans (by omega)

end

end OpenDDS.Guarantees.PacketSending
