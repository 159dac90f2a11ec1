import Grafted.Base.Chain

/-! The lists of addresses that `getaddrinfo` makes.

Darwin and Linux have two pointers of a node in a different order. The shim exchanges them in every
node of the list that libc made, and exchanges them back before libc frees it. Both walks follow the
links through nodes they have just written; what libc gets is, node by node, what it made
(`addrinfo_roundTrip`). -/
namespace Grafted.Dyld.AddrInfo
open ByteMemory Chain

/-! ### The source -/

/-- The functions of libc. `freeaddrinfo` is what it leaves. -/
structure Libc where
  getaddrinfo : (node service hints res : Address) → Memory → BitVec 32 × Memory
  freeaddrinfo : Memory → Address → Memory

/-- `ai_addr`, `ai_canonname` and `ai_next`, as Linux has them, and the size of a node. -/
def aiAddr : Word := 24
def aiCanonname : Word := 32
def aiNext : Word := 40
def nodeSize : Nat := 48

/-- The body of both loops. -/
def swapNode (m : Memory) (cur : Address) : Memory :=
  let addr := m.readWord (cur + aiAddr)
  let canon := m.readWord (cur + aiCanonname)
  (m.writeWord (cur + aiAddr) canon).writeWord (cur + aiCanonname) addr

/-- None if the list has no end. -/
def shimGetaddrinfo (libc : Libc) (node service hints res : Address) (m : Memory) :
    Option (BitVec 32 × Memory) :=
  let (ret, m) := libc.getaddrinfo node service hints res m
  if ret = 0 ∧ res ≠ 0 then (walk swapNode aiNext enough m (m.readWord res)).map fun m => (ret, m)
  else some (ret, m)

def shimFreeaddrinfo (libc : Libc) (res : Address) (m : Memory) : Option Memory :=
  if res = 0 then some m
  else (walk swapNode aiNext enough m res).map fun m => libc.freeaddrinfo m res

/-! ### A node -/

section Node
variable (m : Memory) (a : Address)

theorem apart_addr_canonname : Memory.Apart (a + aiAddr) (a + aiCanonname) := by
  unfold Memory.Apart aiAddr aiCanonname
  bv_omega

theorem swapNode_addr : (swapNode m a).readWord (a + aiAddr) = m.readWord (a + aiCanonname) := by
  unfold swapNode
  dsimp only
  rw [Memory.readWord_writeWord_apart _ _ (apart_addr_canonname a).symm, Memory.readWord_writeWord]

theorem swapNode_canonname : (swapNode m a).readWord (a + aiCanonname) = m.readWord (a + aiAddr) :=
  Memory.readWord_writeWord _ _ _

/-- The bytes of the two fields. -/
def Swapped (a x : Address) : Prop := 24 ≤ (x - a).toNat ∧ (x - a).toNat < 40

theorem swapNode_other {x : Address} (h : ¬ Swapped a x) : swapNode m a x = m x := by
  unfold swapNode Swapped aiAddr aiCanonname at *
  rw [Memory.writeWord_outside _ _ (by bv_omega), Memory.writeWord_outside _ _ (by bv_omega)]

/-- Exchanging twice. -/
theorem swapNode_swapNode : swapNode (swapNode m a) a = m := by
  have haddr := swapNode_addr m a
  have hcanonname := swapNode_canonname m a
  rw [swapNode, haddr, hcanonname]
  funext x
  by_cases hcanon : (x - (a + aiCanonname)).toNat < 8
  · have hword := congrFun (Memory.writeWord_readWord m (a + aiCanonname)) x
    rw [Memory.writeWord, if_pos hcanon] at hword ⊢
    exact hword
  · rw [Memory.writeWord, if_neg hcanon]
    by_cases hfield : (x - (a + aiAddr)).toNat < 8
    · have hword := congrFun (Memory.writeWord_readWord m (a + aiAddr)) x
      rw [Memory.writeWord, if_pos hfield] at hword ⊢
      exact hword
    · rw [Memory.writeWord, if_neg hfield]
      apply swapNode_other
      unfold Swapped aiAddr aiCanonname at *
      bv_omega

end Node

theorem aiAddr_within : aiAddr.toNat + 8 ≤ nodeSize := by decide

theorem aiCanonname_within : aiCanonname.toNat + 8 ≤ nodeSize := by decide

theorem aiNext_within : aiNext.toNat + 8 ≤ nodeSize := by decide

theorem swapNode_local : Local swapNode nodeSize aiNext := by
  refine ⟨?_, ?_, ?_⟩
  · intro m a x hx
    apply swapNode_other
    unfold InNode nodeSize at hx
    unfold Swapped
    omega
  · intro m a
    apply Memory.readWord_congr
    intro i hi
    apply swapNode_other
    unfold Swapped aiNext
    bv_omega
  · intro m m' a hsame x hx
    have haddr : m'.readWord (a + aiAddr) = m.readWord (a + aiAddr) :=
      readWord_sameNode aiAddr_within hsame
    have hcanon : m'.readWord (a + aiCanonname) = m.readWord (a + aiCanonname) :=
      readWord_sameNode aiCanonname_within hsame
    have hbyte := hsame x hx
    unfold swapNode
    rw [haddr, hcanon]
    simp only [Memory.writeWord, hbyte]

/-! ### The lists -/

/-- A list that libc has made and put at `res`: its nodes are apart from each other, and from `res`. -/
structure Listed (m : Memory) (res : Address) (nodes : List Address) : Prop where
  linked : Linked m aiNext (m.readWord res) nodes
  apart : nodes.Pairwise (Separate nodeSize)
  result : ∀ a ∈ nodes, ∀ x, InNode nodeSize a x → 8 ≤ (x - res).toNat

/-- The two fields of each node are exchanged, and nothing else is changed. -/
structure Presented (m m' : Memory) (nodes : List Address) : Prop where
  addr : ∀ a ∈ nodes, m'.readWord (a + aiAddr) = m.readWord (a + aiCanonname)
  canonname : ∀ a ∈ nodes, m'.readWord (a + aiCanonname) = m.readWord (a + aiAddr)
  other : ∀ x, (∀ a ∈ nodes, ¬ Swapped a x) → m' x = m x

/-- What libc is given to free: the nodes as it made them, and the rest as the program left it. -/
structure Returned (m m₂ m₃ : Memory) (nodes : List Address) : Prop where
  same : ∀ a ∈ nodes, SameNode nodeSize m m₃ a
  other : ∀ x, (∀ a ∈ nodes, ¬ InNode nodeSize a x) → m₃ x = m₂ x

section Walk
variable {m m' : Memory} {p : Address} {nodes : List Address}

theorem walk_swapNode (hlinked : Linked m aiNext p nodes) (hapart : nodes.Pairwise (Separate nodeSize)) :
    walk swapNode aiNext enough m p = some (nodes.foldl swapNode m) :=
  have hpos : 0 < nodeSize := by decide
  walk_chain aiNext_within swapNode_local hlinked hapart (length_lt_enough hpos hapart)

theorem foldl_presented (hapart : nodes.Pairwise (Separate nodeSize)) :
    Presented m (nodes.foldl swapNode m) nodes := by
  refine ⟨?_, ?_, ?_⟩
  · intro a ha
    rw [readWord_sameNode aiAddr_within (foldl_node swapNode_local hapart ha), swapNode_addr]
  · intro a ha
    rw [readWord_sameNode aiCanonname_within (foldl_node swapNode_local hapart ha), swapNode_canonname]
  · intro x hx
    clear hapart
    induction nodes generalizing m with
    | nil => rfl
    | cons a rest ih =>
      have hfirst := hx a List.mem_cons_self
      rw [List.foldl_cons, ih fun b hb => hx b (List.mem_cons_of_mem a hb), swapNode_other m a hfirst]

/-- The list is still there once its fields are exchanged. -/
theorem foldl_linked (hlinked : Linked m aiNext p nodes) (hapart : nodes.Pairwise (Separate nodeSize)) :
    Linked (nodes.foldl swapNode m) aiNext p nodes := by
  have hkept : ∀ a ∈ nodes, (nodes.foldl swapNode m).readWord (a + aiNext) = m.readWord (a + aiNext) := by
    intro a ha
    rw [readWord_sameNode aiNext_within (foldl_node swapNode_local hapart ha), swapNode_local.link]
  exact hlinked.of_links hkept

theorem foldl_returned (hapart : nodes.Pairwise (Separate nodeSize))
    (hsame : ∀ a ∈ nodes, SameNode nodeSize (nodes.foldl swapNode m) m' a) :
    Returned m m' (nodes.foldl swapNode m') nodes := by
  refine ⟨?_, ?_⟩
  · intro a ha
    refine foldl_undone swapNode_local ?_ hapart hsame ha
    intro m a x _
    rw [swapNode_swapNode]
  · intro x hx
    exact foldl_outside swapNode_local hx

end Walk

/-- **The list that is freed is the list that was made.** A call that fails, or that has nowhere to
put a list, leaves what libc left. Else each node is presented with the two pointers exchanged, and
freeing the list, after anything the program did outside its nodes, gives libc the nodes it made. -/
theorem addrinfo_roundTrip (libc : Libc) (node service hints res : Address) (m m₁ : Memory) (ret : BitVec 32)
    (hcall : libc.getaddrinfo node service hints res m = (ret, m₁)) :
    (ret ≠ 0 ∨ res = 0 → shimGetaddrinfo libc node service hints res m = some (ret, m₁)) ∧
      (ret = 0 → res ≠ 0 → ∀ nodes, Listed m₁ res nodes →
        ∃ m', shimGetaddrinfo libc node service hints res m = some (0, m') ∧ Presented m₁ m' nodes ∧
          Listed m' res nodes ∧
          ∀ m₂, (∀ a ∈ nodes, SameNode nodeSize m' m₂ a) →
            ∃ m₃, Returned m₁ m₂ m₃ nodes ∧
              shimFreeaddrinfo libc (m'.readWord res) m₂ =
                some (if nodes = [] then m₂ else libc.freeaddrinfo m₃ (m₁.readWord res))) := by
  refine ⟨?_, ?_⟩
  · intro h
    have hskip : ¬ (ret = 0 ∧ res ≠ 0) := by
      rintro ⟨hret, hres⟩
      obtain h | h := h
      · exact h hret
      · exact hres h
    rw [shimGetaddrinfo, hcall]
    exact if_neg hskip
  · rintro rfl hres nodes hlisted
    obtain ⟨hlinked, hapart, hresult⟩ := hlisted
    have hhead : (nodes.foldl swapNode m₁).readWord res = m₁.readWord res := by
      apply Memory.readWord_congr
      intro i hi
      apply foldl_outside swapNode_local
      intro a ha hnode
      have hfar := hresult a ha _ hnode
      bv_omega
    have hpresented := foldl_linked hlinked hapart
    refine ⟨nodes.foldl swapNode m₁, ?_, foldl_presented hapart, ⟨?_, hapart, hresult⟩, ?_⟩
    · rw [shimGetaddrinfo, hcall]
      dsimp only
      rw [if_pos ⟨rfl, hres⟩, walk_swapNode hlinked hapart]
      rfl
    · rw [hhead]
      exact hpresented
    · intro m₂ hsame
      have hlinked₂ := hpresented.congr aiNext_within hsame
      refine ⟨nodes.foldl swapNode m₂, foldl_returned hapart hsame, ?_⟩
      rw [hhead, shimFreeaddrinfo, walk_swapNode hlinked₂ hapart]
      cases nodes with
      | nil => exact if_pos hlinked
      | cons a rest =>
        obtain ⟨hp, hne, -⟩ := hlinked
        rw [if_neg (hp ▸ hne), if_neg (List.cons_ne_nil a rest)]
        rfl

/-- A list of two nodes, of which the first has a name, and a pointer to it. -/
def twoNodes (res : Address) (m : Memory) : Memory :=
  m.writeWords [(res, 0x5000), (0x5018, 0x6000), (0x5020, 0x7000), (0x5028, 0x5040), (0x5058, 0x6100),
    (0x5060, 0), (0x5068, 0)]

def twoLibc : Libc := ⟨fun _ _ _ res m => (0, twoNodes res m), fun m _ => m⟩

theorem twoNodes_listed : Listed (twoNodes 0x9000 fun _ => 0) 0x9000 [0x5000, 0x5040] := by
  have hend : (twoNodes 0x9000 fun _ => 0).readWord (0x5040 + aiNext) = 0 := by decide +kernel
  refine ⟨⟨by decide +kernel, by decide, by decide +kernel, by decide, hend⟩, ?_, ?_⟩
  · refine List.pairwise_pair.mpr ?_
    unfold Separate nodeSize
    decide
  · intro a ha x hx
    unfold InNode nodeSize at hx
    obtain rfl | ha := List.mem_cons.mp ha
    · bv_omega
    · rw [List.mem_singleton.mp ha] at hx
      bv_omega

/-- The name of the first node is read where Linux has the address. -/
theorem addrinfo_roundTrip_two :
    ∃ m', shimGetaddrinfo twoLibc 0 0 0 0x9000 (fun _ => 0) = some (0, m') ∧
      Presented (twoNodes 0x9000 fun _ => 0) m' [0x5000, 0x5040] ∧ Listed m' 0x9000 [0x5000, 0x5040] ∧
      ∀ m₂, (∀ a ∈ [(0x5000 : Address), 0x5040], SameNode nodeSize m' m₂ a) →
        ∃ m₃, Returned (twoNodes 0x9000 fun _ => 0) m₂ m₃ [0x5000, 0x5040] ∧
          shimFreeaddrinfo twoLibc (m'.readWord 0x9000) m₂ =
            some (if [(0x5000 : Address), 0x5040] = [] then m₂
              else twoLibc.freeaddrinfo m₃ ((twoNodes 0x9000 fun _ => 0).readWord 0x9000)) :=
  (addrinfo_roundTrip twoLibc 0 0 0 0x9000 (fun _ => 0) (twoNodes 0x9000 fun _ => 0) 0 rfl).2 rfl
    (by decide) [0x5000, 0x5040] twoNodes_listed

end Grafted.Dyld.AddrInfo
