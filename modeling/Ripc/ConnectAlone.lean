import Ripc.ConnectSteps
import Ripc.DriverRefines

namespace Ripc

def ConnectPc.Runs (K : Kernel) : ConnectPc × Drv → ConnectPc × Drv → Prop :=
  Relation.ReflTransGen fun a b => a.1.step K a.2 = .ok b

variable {s s' : Drv} {K : Kernel} {pc : ConnectPc} {a b : ConnectPc × Drv}

namespace ConnectPc.Runs

theorem refl : ConnectPc.Runs K a a := Relation.ReflTransGen.refl

theorem head (a : ConnectPc × Drv) (h : pc.step K s = .ok a) (rest : ConnectPc.Runs K a b) :
    ConnectPc.Runs K (pc, s) b :=
  Relation.ReflTransGen.head h rest

theorem last (h : pc.step K s = .ok a) : ConnectPc.Runs K (pc, s) a := head a h refl

theorem trans {c : ConnectPc × Drv} (h : ConnectPc.Runs K a b) (h' : ConnectPc.Runs K b c) : ConnectPc.Runs K a c :=
  Relation.ReflTransGen.trans h h'

end ConnectPc.Runs

theorem shmGetFreeSubmem_first_free {shm : Shm} {i : Fin shmPoolSize} (free : (shm.subMems i).connP = none)
    (before : ∀ j, j < i → (shm.subMems j).connP ≠ none) : shmGetFreeSubmem shm = some i := by
  refine List.find?_eq_some_iff_getElem.mpr ⟨by simp [free], i, by simp, by simp, fun j hj => ?_⟩
  simpa [Option.isSome_iff_ne_none] using before ⟨j, hj.trans i.isLt⟩ hj

theorem readSlots (own : Bool) {k v p : Ptr} {shm : Shm} (hp : s.gShmList.get? p = some shm) (left : Nat) :
    ∀ n, n + left = shmPoolSize → (∀ j : Fin shmPoolSize, j < n → (shm.subMems j).connP ≠ none) →
      ConnectPc.Runs K (.readSlot k v p n own, s) ((shmGetFreeSubmem shm).elim (.readSlot k v p shmPoolSize own)
        fun i => .createConn k v (some ⟨p, i⟩), s) := by
  induction left with
  | zero =>
    intro n hn taken
    have full : shmGetFreeSubmem shm = none := by
      refine List.find?_eq_none.mpr fun i _ => ?_
      simpa [Option.isSome_iff_ne_none] using taken i (by omega)
    obtain rfl : n = shmPoolSize := hn
    rw [full]
    exact .refl
  | succ left ih =>
    intro n hn taken
    have bound : n < shmPoolSize := by omega
    cases hfree : (shm.subMems ⟨n, bound⟩).connP with
    | none =>
      have found : shmGetFreeSubmem shm = some ⟨n, bound⟩ := shmGetFreeSubmem_first_free hfree taken
      rw [found]
      refine .last ?_
      simp [ConnectPc.step, bound, deref_of_get? hp, hfree]
    | some con =>
      refine .head (.readSlot k v p (n + 1) own, s) ?_ (ih (n + 1) (by omega) fun j hj => ?_)
      · simp [ConnectPc.step, bound, deref_of_get? hp, hfree]
      · rcases Nat.lt_succ_iff_lt_or_eq.mp hj with lt | eq
        · exact taken j lt
        · rw [show j = ⟨n, bound⟩ from Fin.ext eq, hfree]
          simp

theorem poolAfter_eq {p : Ptr} {shm : Shm} {pre rest : List (Ptr × Shm)}
    (h : s.gShmList.entries = pre ++ (p, shm) :: rest) : s.poolAfter p = rest.head?.map Prod.fst := by
  have nodup := s.gShmList.nodup
  rw [h, List.map_append, List.map_cons] at nodup
  have other : ∀ q ∈ pre.map Prod.fst, decide (q ≠ p) = true := by
    intro q hq
    have := (List.nodup_append.mp nodup).2.2 q hq p List.mem_cons_self
    simpa using this
  rw [Drv.poolAfter, Table.keys, h, List.map_append, List.map_cons, List.dropWhile_append_of_pos other]
  simp

theorem scanPools {k v : Ptr} (rest : List (Ptr × Shm)) :
    ∀ pre p shm, s.gShmList.entries = pre ++ (p, shm) :: rest →
      ConnectPc.Runs K (.readSlot k v p 0 false, s)
        ((((p, shm) :: rest).findSome? fun e => (shmGetFreeSubmem e.2).map (⟨e.1, ·⟩)).elim (.createPool k v)
          fun m => .createConn k v (some m), s) := by
  induction rest with
  | nil =>
    intro pre p shm h
    have hp : s.gShmList.get? p = some shm := Table.get?_eq_some.mpr (by rw [h]; simp)
    have slots := readSlots false (k := k) (v := v) (K := K) hp shmPoolSize 0 rfl (by simp)
    cases hf : shmGetFreeSubmem shm with
    | some i => simpa [hf] using slots
    | none =>
      rw [hf] at slots
      have last : s.poolAfter p = none := by rw [poolAfter_eq h]; rfl
      refine slots.trans (.head (.nextPool k v p, s) (by simp [ConnectPc.step]) ?_)
      refine .head (.createPool k v, s) (by simp [ConnectPc.step, last]) ?_
      simpa [hf] using ConnectPc.Runs.refl
  | cons e rest ih =>
    intro pre p shm h
    have hp : s.gShmList.get? p = some shm := Table.get?_eq_some.mpr (by rw [h]; simp)
    have slots := readSlots false (k := k) (v := v) (K := K) hp shmPoolSize 0 rfl (by simp)
    cases hf : shmGetFreeSubmem shm with
    | some i => simpa [hf] using slots
    | none =>
      rw [hf] at slots
      have next : s.poolAfter p = some e.1 := by rw [poolAfter_eq h]; rfl
      have later := ih (pre ++ [(p, shm)]) e.1 e.2 (by simp [h])
      refine slots.trans (.head (.nextPool k v p, s) (by simp [ConnectPc.step]) ?_)
      refine .head (.readSlot k v e.1 0 false, s) (by simp [ConnectPc.step, next]) ?_
      simpa [hf] using later

theorem getFreeSubmem_runs {k v : Ptr} {o : Option SubMemPtr} (h : getFreeSubmem K s = .ok (o, s')) :
    ConnectPc.Runs K (.firstPool k v, s) (.createConn k v o, s') := by
  have scan : ConnectPc.Runs K (.firstPool k v, s)
      ((findFreeSubmem s).elim (.createPool k v) fun m => .createConn k v (some m), s) := by
    cases hl : s.gShmList.entries with
    | nil =>
      refine .head (.createPool k v, s) (by simp [ConnectPc.step, Table.keys, hl]) ?_
      simpa [findFreeSubmem, hl] using ConnectPc.Runs.refl
    | cons e rest =>
      refine .head (.readSlot k v e.1 0 false, s) (by simp [ConnectPc.step, Table.keys, hl]) ?_
      have pools := scanPools (K := K) (k := k) (v := v) rest [] e.1 e.2 hl
      simpa [findFreeSubmem, hl] using pools
  unfold getFreeSubmem at h
  cases hf : findFreeSubmem s with
  | some m =>
    rw [hf] at h scan
    cases h
    exact scan
  | none =>
    rw [hf] at h scan
    obtain ⟨⟨p, s₁⟩, hs, h⟩ := bind_eq_ok.mp h
    refine scan.trans ?_
    cases p with
    | none =>
      cases h
      exact .last (by simp [ConnectPc.step, hs])
    | some p =>
      obtain ⟨pool, hp, h⟩ := bind_eq_ok.mp h
      cases h
      have slots := readSlots true (k := k) (v := v) (K := K) (deref_some hp) shmPoolSize 0 rfl (by simp)
      refine .head (.readSlot k v p 0 true, s') (by simp [ConnectPc.step, hs]) (slots.trans ?_)
      cases hg : shmGetFreeSubmem pool with
      | some i => exact .refl
      | none => exact .last (by simp [ConnectPc.step])

theorem getFreeSubmem_live {m : SubMemPtr} (h : getFreeSubmem K s = .ok (some m, s')) :
    ∃ sub, s'.subMem? m = some sub := by
  have found : findFreeSubmem s' = some m := by
    rcases getFreeSubmem_ok h with ⟨rfl, ho, _⟩ | ⟨_, _, ho, _⟩ <;> exact ho.symm
  obtain ⟨sub, hsub, _⟩ := findFreeSubmem_free found
  exact ⟨sub, hsub⟩

theorem createConnection_some {client server con : Ptr} {sub : Option SubMemPtr}
    (h : createConnection K s client server sub = (some con, s')) : ∃ m, sub = some m ∧ con ∉ s.gConnsList.keys ∧
      s' = { s with gConnsList := s.gConnsList.pushBack con ⟨some client, some server, some m, false⟩ } := by
  unfold createConnection at h
  split at h
  next => cases h
  next m =>
    split at h
    next => cases h
    next p hp =>
      cases h
      exact ⟨m, rfl, K.kmalloc_fresh .conn s _ hp, rfl⟩

theorem createConnection_none {client server : Ptr} {sub : Option SubMemPtr}
    (h : (createConnection K s client server sub).1 = none) : (createConnection K s client server sub).2 = s := by
  unfold createConnection at h ⊢
  split
  next => rfl
  next =>
    split
    next => rfl
    next hp => simp [hp] at h

theorem connectClientToServer_runs {k v : Ptr} {ret : Int} (h : connectClientToServer K s v k = .ok (ret, s')) :
    ConnectPc.Runs K (.firstPool k v, s) (.returned ret, s') := by
  obtain ⟨⟨o, s₁⟩, hf, h⟩ := bind_eq_ok.mp h
  refine (getFreeSubmem_runs hf).trans ?_
  cases o with
  | none =>
    cases h
    exact .last rfl
  | some m =>
    simp only at h
    cases hc : (createConnection K s₁ k v (some m)).1 with
    | none =>
      rw [hc] at h
      cases h
      exact .last (by simp [ConnectPc.step, hc])
    | some con =>
      rw [hc] at h
      refine .head (.testConn k v con m, (createConnection K s₁ k v (some m)).2) (by simp [ConnectPc.step, hc]) ?_
      obtain ⟨s₂, hadd, h⟩ := bind_eq_ok.mp h
      obtain ⟨s₃, hserver, h⟩ := bind_eq_ok.mp h
      cases h
      obtain ⟨cli, hcli, hadd⟩ := bind_eq_ok.mp hadd
      have marks : ConnectPc.Runs K (.testConn k v con m, (createConnection K s₁ k v (some m)).2)
          (.setSubmem v con m, s₂) := by
        split at hadd
        next connected =>
          cases hadd
          exact .last (by simp [ConnectPc.step, hcli, connected])
        next unconnected =>
          cases hadd
          refine .head (.setConn k v con m, (createConnection K s₁ k v (some m)).2)
            (by simp [ConnectPc.step, hcli, unconnected]) (.last ?_)
          simp [ConnectPc.step, hcli]
      have pools : s₂.gShmList = s₁.gShmList := by
        obtain ⟨_, _, _, made⟩ := createConnection_some (Prod.ext hc rfl : createConnection K s₁ k v (some m) =
          (some con, (createConnection K s₁ k v (some m)).2))
        rw [made] at hadd
        split at hadd <;> cases hadd <;> rfl
      obtain ⟨sub, hsub⟩ := getFreeSubmem_live hf
      have live : derefSubMem s₂ m = .ok sub := by
        rw [Drv.subMem?, ← pools] at hsub
        simp only [derefSubMem, Drv.subMem?, hsub]
      refine marks.trans (.head (.addServerConn v con, submemAddConnection s₂ m con) ?_ (.last ?_))
      · simp [ConnectPc.step, live]
      · simp [ConnectPc.step, hserver]

/-- A call that nothing comes between does what the driver's model does in one step. -/
theorem connectToServer_runs {con : ConnectToServer} {r : Reply} (h : connectToServer K s con = .ok (r, s')) :
    ConnectPc.Runs K (.copyRequest con, s) (.returned r.ret, s') := by
  have case := connectToServer_case K s con
  rw [h] at case
  generalize answered : (Except.ok (r, s') : Answer) = a at case
  have found : ∀ {k cli}, K.copyFromUser = true → findClientById s con.clientId = some k →
      s.gClientsList.get? k = some cli → cli.connP = none → ∀ {b},
      ConnectPc.Runs K (.findServer con k, s) b → ConnectPc.Runs K (.copyRequest con, s) b := by
    intro k cli copy hk hcli free b rest
    refine .head (.findClient con, s) (by simp [ConnectPc.step, copy]) ?_
    refine .head (.testClient con (some k), s) (by simp [ConnectPc.step, hk]) ?_
    exact .head (.findServer con k, s) (by simp [ConnectPc.step, deref_of_get? hcli, free]) rest
  cases case with
  | noClient | faultyName | endlessName => cases answered
  | notCopied copy =>
    cases answered
    exact .last (by simp [ConnectPc.step, copy])
  | @connected k cli copy hk hcli connected =>
    cases answered
    refine .head (.findClient con, s) (by simp [ConnectPc.step, copy]) ?_
    refine .head (.testClient con (some k), s) (by simp [ConnectPc.step, hk]) ?_
    exact .last (by simp [ConnectPc.step, deref_of_get? hcli, Option.isSome_iff_ne_none.mpr connected])
  | noServer copy hk hcli free hf len =>
    cases answered
    obtain ⟨n, len⟩ := Option.ne_none_iff_exists'.mp len
    exact found copy hk hcli free (.last (by simp [ConnectPc.step, hf, len]))
  | @asks k cli v copy hk hcli free hf =>
    obtain ⟨⟨ret, s₂⟩, hc, done⟩ := bind_eq_ok.mp answered.symm
    cases done
    refine found copy hk hcli free ?_
    exact .head (.firstPool k v, s) (by simp [ConnectPc.step, hf]) (connectClientToServer_runs hc)

end Ripc
