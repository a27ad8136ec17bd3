import MoonS7.Lib.Sharing
import MoonS7.Plc.Sessions

/-!
# Many clients of one PLC

Each client has a connection of its own; the PLC carries out their requests one at a time, in
whatever order they come, on the one memory it has (`hub`).

Main result: `clients_isolated` -- clients that write where no other client reads or writes return,
in every interleaving of their requests, what each returns alone, and leave the memory they leave
alone.
-/

namespace MoonS7

open Interaction Port Ranges Sharing

/-! ## 1. The PLC and its connections -/

/-- The memory, and for each client the replies not taken yet and the requests served so far. -/
structure Hub (ι : Type) where
  mem : Mem
  replies : ι → List Frame
  served : ι → List Frame

section Hub

variable {ι : Type} [DecidableEq ι]

def Hub.start (M : Mem) : Hub ι := ⟨M, fun _ => [], fun _ => []⟩

def Hub.link (S : Hub ι) (i : ι) : PlcLink := ⟨S.mem, S.replies i, S.served i⟩

def Hub.put (S : Hub ι) (i : ι) (t : PlcLink) : Hub ι :=
  ⟨t.mem, Function.update S.replies i t.replies, Function.update S.served i t.served⟩

/-- A call of the client `i`, on its own connection. -/
def hub (i : ι) (c : Call Frame) (S : Hub ι) : Reply Frame Frame S7Error c × Hub ι :=
  ((plc c (S.link i)).1, S.put i (plc c (S.link i)).2)

/-- The calls of a client that sees the cells `F` and changes none but the cells `W`. -/
def Within (F W : Set Cell) : Call Frame → Prop
  | .send q => namedCells q ⊆ F ∧ storedCells q ⊆ W
  | .receive => True

/-- What the client `i` sees of the hub is what it would see of the link `t`. -/
structure Sees (F : Set Cell) (i : ι) (S : Hub ι) (t : PlcLink) : Prop where
  mem : AgreeOn F S.mem t.mem
  replies : S.replies i = t.replies
  served : S.served i = t.served

section Send

variable {F : Set Cell} {i : ι} {S : Hub ι} {t : PlcLink} (h : Sees F i S t)

include h

theorem Sees.send {q : Frame} (hq : namedCells q ⊆ F) :
    Sees F i (hub i (.send q) S).2 (plcSend q t).2 := by
  show Sees F i (S.put i (plcSend q (S.link i)).2) _
  have hself : ∀ x y : PlcLink, AgreeOn F x.mem y.mem → x.replies = y.replies →
      x.served = y.served → Sees F i (S.put i x) y := fun x y hm hr hs =>
    ⟨hm, (Function.update_self ..).trans hr, (Function.update_self ..).trans hs⟩
  rw [plcSend, plcSend, show (S.link i).mem = S.mem from rfl]
  rcases plcServe_agree h.mem hq with ⟨h₁, h₂⟩ | ⟨resp, m₁, m₂, h₁, h₂, hm⟩
  · rw [h₁, h₂]
    refine hself _ _ h.mem h.replies ?_
    show S.served i ++ [q] = t.served ++ [q]
    rw [h.served]
  · rw [h₁, h₂]
    refine hself _ _ hm ?_ ?_
    · show S.replies i ++ [resp] = t.replies ++ [resp]
      rw [h.replies]
    · show S.served i ++ [q] = t.served ++ [q]
      rw [h.served]

theorem Sees.receive : (plcReceive (S.link i)).1 = (plcReceive t).1 ∧
    Sees F i (hub i .receive S).2 (plcReceive t).2 := by
  obtain ⟨m, rs, served⟩ := t
  have hr : S.replies i = rs := h.replies
  show _ ∧ Sees F i (S.put i (plcReceive (S.link i)).2) _
  unfold plcReceive
  rw [show (S.link i).replies = rs from hr]
  cases rs with
  | nil =>
    refine ⟨rfl, h.mem, ?_, ?_⟩
    · exact (Function.update_self ..).trans hr
    · exact (Function.update_self ..).trans h.served
  | cons r rs =>
    refine ⟨rfl, h.mem, ?_, ?_⟩
    · exact Function.update_self ..
    · exact (Function.update_self ..).trans h.served

/-- Another client that stays away from `F` is not seen. -/
theorem Sees.other {W : Set Cell} (hd : Disjoint W F) {j : ι} (hj : j ≠ i) {c : Call Frame} {G : Set Cell}
    (hc : Within G W c) : Sees F i (hub j c S).2 t := by
  have hupd : ∀ x : PlcLink, AgreeOn F x.mem S.mem → Sees F i (S.put j x) t := fun x hx =>
    ⟨fun d hdF => (hx d hdF).trans (h.mem d hdF),
      (Function.update_of_ne hj.symm _ _).trans h.replies,
      (Function.update_of_ne hj.symm _ _).trans h.served⟩
  cases c with
  | receive =>
    refine hupd (plcReceive (S.link j)).2 ?_
    unfold plcReceive
    cases (S.link j).replies <;> exact fun _ _ => rfl
  | send q =>
    refine hupd (plcSend q (S.link j)).2 fun d hdF => ?_
    unfold plcSend
    rw [show (S.link j).mem = S.mem from rfl]
    cases hs : plcServe S.mem q with
    | none => rfl
    | some ans =>
      by_contra hne
      exact Set.disjoint_left.mp hd (hc.2 (plcServe_changed hs hne)) hdF

end Send

/-- **Clients that write where no other looks are isolated.** -/
theorem isolated_hub {F W : ι → Set Cell} (hd : ∀ i j, j ≠ i → Disjoint (W j) (F i)) :
    Isolated (hub (ι := ι)) plc (fun i => Within (F i) (W i)) (fun i => Sees (F i) i) where
  reply := by
    rintro i c S t - h
    cases c with
    | send q =>
      show (plcSend q (S.link i)).1 = (plcSend q t).1
      unfold plcSend
      cases plcServe (S.link i).mem q <;> cases plcServe t.mem q <;> rfl
    | receive => exact h.receive.1
  self := by
    rintro i c S t hc h
    cases c with
    | send q => exact h.send hc.1
    | receive => exact h.receive.2
  other := fun hj hc h => h.other (hd _ _ hj) hj hc

end Hub

/-! ## 2. What a session sees and changes -/

section Footprint

variable {cl : S7Client} (hc : cl.connected = true) (hpdu : cl.pduSize.toInt ≤ 960)

theorem cells_mono {r : Region} {s n s' n' : Nat} (h₁ : s ≤ s') (h₂ : s' + n' ≤ s + n) :
    cells (r, s', n') ⊆ cells (r, s, n) := by
  rintro c ⟨hr, hl, hu⟩
  have hl : s' ≤ c.2 := hl
  have hu : c.2 < s' + n' := hu
  exact ⟨hr, by show s ≤ c.2; omega, by show c.2 < s + n; omega⟩

include hc hpdu

/-- **The requests of an access** name no cell outside its range, and store in none that it does not
    change. -/
theorem asks_within {β : Type} {a : Access β} (ha : a.InRange) {F W : Set Cell}
    (hF : cells a.range ⊆ F) (hW : a.changes ⊆ W) : Asks (Within F W) (a.prog cl).run := by
  cases ha with
  | @reads area r start size dec ha h₀ h₁ hr =>
    have ht := tiles_cuts (maxChunk cl.pduSize 23) 0 size.toInt.toNat
    rw [Access.prog, chunkedRead_eq hc]
    refine ((asks_session trivial fun q hq => ?_).op_bind fun _ => .ret _).op_bind fun _ => .ret _
    obtain ⟨p, hp, hpq⟩ := List.mem_map.mp hq
    cases hpq
    have hb := ht.bounds hp
    have hm := chunk_le hpdu (by decide) hp
    have hlen : bits (Int32.ofNat p.2) % 65536 = p.2 := by
      rw [bits_ofNat]
      omega
    refine ⟨?_, by rw [storedCells_readFrame]; exact Set.empty_subset W⟩
    rw [namedCells_eq (asked_readFrame _ _ _ _), bits_start_add h₀ (by omega), hlen]
    exact (cells_mono (by omega) (by omega)).trans hF
  | @writes area r start data res ha h₀ hr =>
    have ht := tiles_cuts (maxChunk cl.pduSize 35) 0 data.length
    rw [Access.prog, chunkedWrite_eq hc]
    refine ((asks_session trivial fun q hq => ?_).op_bind fun _ => .ret _).op_bind fun _ => .ret _
    obtain ⟨p, hp, hpq⟩ := List.mem_map.mp hq
    have hb := ht.bounds hp
    have hlen : ((data.drop p.1).take p.2).length = p.2 := by
      rw [List.length_take, List.length_drop]
      omega
    rw [writeReq] at hpq
    split at hpq
    · cases hpq
      have hcells : namedCells (writeFrame area (start + Int32.ofNat p.1) ((data.drop p.1).take p.2)
          cl.pduRef) ⊆ cells (area.region, start.toInt.toNat, data.length) := by
        rw [namedCells_eq (asked_writeFrame _ _ _ (by omega)), bits_start_add h₀ (by omega), hlen]
        exact cells_mono (by omega) (by omega)
      exact ⟨hcells.trans hF, fun c hc => hW (hcells hc.2)⟩
    · cases hpq

end Footprint

/-! ## 3. Many clients -/

/-- The sessions of the clients: the operations of each, on its client, see no cell outside `F` and
    change none outside `W`, and what one changes no other sees. -/
structure Apart {ι : Type} {takes : Int32 → Bool} (ops : ι → List (DataOp takes))
    (F W : ι → Set Cell) : Prop where
  sees : ∀ i, ∀ d ∈ ops i, cells d.access.range ⊆ F i
  changes : ∀ i, ∀ d ∈ ops i, d.access.changes ⊆ W i
  apart : ∀ i j, j ≠ i → Disjoint (W j) (F i)

section Clients

variable {ι : Type} {takes : Int32 → Bool} {cl : ι → S7Client}
  (hc : ∀ i, (cl i).connected = true) (hpdu : ∀ i, (cl i).pduSize.toInt ≤ 960)
  {ops : ι → List (DataOp takes)} {F W : ι → Set Cell}

/-- The hub before any request, with the whole session of each client to come. -/
def Hub.sessions (cl : ι → S7Client) (ops : ι → List (DataOp takes)) (M : Mem) :
    Shared ι (Call Frame) (Reply Frame Frame S7Error)
      (S7Result (Results (DataOp takes) DataOp.Result Stop)) (Hub ι) :=
  ⟨.start M, fun i => (series (DataOp.prog (cl i)) (ops i) : Client _).run⟩

include hc hpdu

theorem own_sessions (h : Apart ops F W) (M : Mem) :
    Own (fun i => Within (F i) (W i)) (Hub.sessions cl ops M) := by
  intro i
  refine asks_series fun d hd => ?_
  rw [d.prog_eq (hc i)]
  exact asks_within (hc i) (hpdu i) d.inRange (h.sees i d hd) (h.changes i d hd)

/-- **Clients that keep apart are isolated**: in every interleaving, a client that is done has
    returned what its accesses come to on the memory at the start, and the cells it sees hold what
    they leave there; a cell that no client changes holds what it held. -/
theorem clients_isolated [DecidableEq ι] (h : Apart ops F W) (M : Mem)
    {S : Shared ι (Call Frame) (Reply Frame Frame S7Error)
      (S7Result (Results (DataOp takes) DataOp.Result Stop)) (Hub ι)}
    (ht : Turns hub (Hub.sessions cl ops M) S) :
    (∀ i x, S.left i = .ret x → x = .ok (effects DataOp.effect (ops i) M).1 ∧
      AgreeOn (F i) S.env.mem (effects DataOp.effect (ops i) M).2) ∧
    ∀ c, (∀ i, c ∉ W i) → S.env.mem c.1 c.2 = M c.1 c.2 := by
  have hown := own_sessions hc hpdu h M
  refine ⟨fun i x hx => ?_, fun c hcell => ?_⟩
  · have hsees : Sees (F i) i (Hub.start M) ⟨M, [], []⟩ := ⟨fun _ _ => rfl, rfl, rfl⟩
    obtain ⟨hret, hmem⟩ := ht.returns (isolated_hub h.apart) hown hsees hx
    obtain ⟨qs, hrun⟩ := run_session_plc (hc i) (hpdu i) (ops i) (s := ⟨M, [], []⟩) rfl
    rw [show (Hub.sessions cl ops M).left i = (series (DataOp.prog (cl i)) (ops i) : Client _).run
      from rfl, hrun] at hret hmem
    exact ⟨hret.symm, hmem.mem⟩
  · refine (ht.invariant (I := fun S => S.mem c.1 c.2 = M c.1 c.2) (fun i call s hw hs => ?_) hown
      rfl).2
    cases call with
    | receive =>
      show (plcReceive (s.link i)).2.mem c.1 c.2 = _
      unfold plcReceive
      cases (s.link i).replies <;> exact hs
    | send q =>
      show (plcSend q (s.link i)).2.mem c.1 c.2 = _
      unfold plcSend
      rw [show (s.link i).mem = s.mem from rfl]
      cases hserve : plcServe s.mem q with
      | none => exact hs
      | some ans =>
        by_contra hne
        rw [← hs] at hne
        exact hcell i (hw.2 (plcServe_changed hserve hne))

end Clients

/-- One client writes to DB 1 and reads there, another does so in DB 2. -/
def twoWriters : Bool → List (DataOp fun _ => true)
  | false =>
    [⟨.agWrite 1 0 [7], _, rfl, .writes (.db (by decide) (by decide)) (by decide) (by decide)⟩,
      ⟨.agRead 1 0 1, _, rfl, .reads (.db (by decide) (by decide)) (by decide) (by decide) (by decide)⟩]
  | true =>
    [⟨.agWrite 2 0 [9], _, rfl, .writes (.db (by decide) (by decide)) (by decide) (by decide)⟩,
      ⟨.agRead 2 0 1, _, rfl, .reads (.db (by decide) (by decide)) (by decide) (by decide) (by decide)⟩]

theorem apart_twoWriters : Apart twoWriters (fun b => cells (.db (cond b 2 1), 0, 1))
    (fun b => cells (.db (cond b 2 1), 0, 1)) where
  sees := by
    rintro (_ | _) d hd <;> rcases hd with _ | ⟨_, _ | ⟨_, hd⟩⟩ <;>
      first | exact fun c hc => hc | cases hd
  changes := by
    rintro (_ | _) d hd <;> rcases hd with _ | ⟨_, _ | ⟨_, hd⟩⟩ <;>
      first
        | exact fun c hc => hc
        | exact fun c hc => absurd hc.2.2 (Nat.not_lt_of_le hc.2.1)
        | cases hd
  apart := by
    rintro (_ | _) (_ | _) hne
    · exact absurd rfl hne
    · exact Set.disjoint_left.mpr fun c h₁ h₂ => by cases h₁.1.symm.trans h₂.1
    · exact Set.disjoint_left.mpr fun c h₁ h₂ => by cases h₁.1.symm.trans h₂.1
    · exact absurd rfl hne

theorem clients_isolated_two :
    ∃ S, Turns hub (Hub.sessions (fun _ : Bool => { S7Client.new with connected := true }) twoWriters
        fun _ _ => 0) S ∧ S.env.mem (.db 1) 0 = 7 ∧ S.env.mem (.db 2) 0 = 9 := by
  obtain ⟨S, ht, hdone⟩ := exists_all_done (h := hub) (Hub.sessions (fun _ : Bool =>
    { S7Client.new with connected := true }) twoWriters fun _ _ => 0)
  obtain ⟨hret, -⟩ := clients_isolated (fun _ => rfl) (fun _ => by decide) apart_twoWriters _ ht
  obtain ⟨x, hx⟩ := hdone false
  obtain ⟨y, hy⟩ := hdone true
  exact ⟨S, ht, (hret false x hx).2 (.db 1, 0) ⟨rfl, Nat.le_refl 0, Nat.one_pos⟩,
    (hret true y hy).2 (.db 2, 0) ⟨rfl, Nat.le_refl 0, Nat.one_pos⟩⟩

end MoonS7
