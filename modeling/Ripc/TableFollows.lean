import Ripc.ServerTable

namespace Ripc

/-- The sub-memory that server `a` has for the client `c` once it has handled `d`. -/
def NotificationData.advance (a c : Int) (cur : Option Int) (d : NotificationData) : Option Int :=
  if d.For a ∧ d.senderId = c ∧ isIdValid c ∧ isIdValid d.subMemId then
    match d.type with
    | .newConnection => cur.or (some d.subMemId)
    | .newMessage => cur
    | .remoteDisconnect => none
  else cur

section

variable {a c x : Int} {d : NotificationData} {ds : List NotificationData} {cur : Option Int}

theorem advance_other (other : ¬(d.For a ∧ d.senderId = c ∧ isIdValid c ∧ isIdValid d.subMemId)) :
    d.advance a c cur = cur := if_neg other

theorem foldl_advance_other (other : ∀ d ∈ ds, ¬(d.For a ∧ d.senderId = c ∧ isIdValid c ∧ isIdValid d.subMemId)) :
    ds.foldl (NotificationData.advance a c) cur = cur := by
  induction ds generalizing cur with
  | nil => rfl
  | cons d ds ih =>
    rw [List.foldl_cons, advance_other (other d List.mem_cons_self)]
    exact ih fun e he => other e (List.mem_cons_of_mem d he)

theorem foldl_advance_for (none : ∀ d ∈ ds, ¬d.For a) : ds.foldl (NotificationData.advance a c) cur = cur :=
  foldl_advance_other fun d hd h => none d hd h.1

theorem foldl_advance_none
    (noNew : ∀ d ∈ ds, d.For a → d.senderId = c → isIdValid d.subMemId = true → d.type ≠ .newConnection) :
    ds.foldl (NotificationData.advance a c) none = none := by
  induction ds with
  | nil => rfl
  | cons d ds ih =>
    have still : d.advance a c none = none := by
      unfold NotificationData.advance
      split
      next h =>
        have other := noNew d List.mem_cons_self h.1 h.2.1 h.2.2.2
        cases htype : d.type <;> simp_all
      next => rfl
    rw [List.foldl_cons, still]
    exact ih fun e he => noNew e (List.mem_cons_of_mem d he)

/-- The last that the notifications say about the client's connection is that it has ended. -/
def EndsLast (a c : Int) (ds : List NotificationData) : Prop :=
  ∃ before d after, ds = before ++ d :: after ∧ d.Ends a c ∧
    ∀ e ∈ after, e.For a → e.senderId = c → isIdValid e.subMemId = true → e.type ≠ .newConnection

theorem EndsLast.gone (ending : EndsLast a c ds) (valid : isIdValid c = true) (cur : Option Int) :
    ds.foldl (NotificationData.advance a c) cur = none := by
  obtain ⟨before, d, after, rfl, ⟨who, type, receiver, sender, sub⟩, noNew⟩ := ending
  have torn : ∀ cur, d.advance a c cur = none := by
    intro cur
    simp [NotificationData.advance, NotificationData.For, who, type, receiver, sender, sub, valid]
  rw [List.foldl_append, List.foldl_cons, torn]
  exact foldl_advance_none noNew

theorem endsLast_of_gone {y : Int} (valid : isIdValid c = true)
    (gone : ds.foldl (NotificationData.advance a c) (some y) = none) : EndsLast a c ds := by
  induction ds using List.reverseRecOn with
  | nil => cases gone
  | append_singleton ds e ih =>
    rw [List.foldl_append, List.foldl_cons, List.foldl_nil] at gone
    have longer : ds.foldl (NotificationData.advance a c) (some y) = none →
        (e.For a → e.senderId = c → isIdValid e.subMemId = true → e.type ≠ .newConnection) →
        EndsLast a c (ds ++ [e]) := by
      intro none noNew
      obtain ⟨before, d, after, rfl, ends, rest⟩ := ih none
      refine ⟨before, d, after ++ [e], by simp, ends, fun f hf => ?_⟩
      rcases List.mem_append.mp hf with hf | hf
      · exact rest f hf
      · exact List.mem_singleton.mp hf ▸ noNew
    unfold NotificationData.advance at gone
    split at gone
    next h =>
      obtain ⟨⟨who, receiver⟩, sender, _, sub⟩ := h
      cases htype : e.type with
      | newConnection => simp [htype] at gone
      | newMessage =>
        rw [htype] at gone
        exact longer gone fun _ _ _ => by simp [htype]
      | remoteDisconnect => exact ⟨ds, e, [], rfl, ⟨who, htype, receiver, sender, sub⟩, by simp⟩
    next other => exact longer gone fun own sender sub => absurd ⟨own, sender, valid, sub⟩ other

/-- Where no connection is announced, the entry stays unless the client's disconnection is among the
notifications. -/
theorem foldl_advance_ends (noNew : ∀ d ∈ ds, d.For a → d.type ≠ .newConnection) (valid : isIdValid c = true) :
    ((∃ d ∈ ds, d.Ends a c) ∧ ds.foldl (NotificationData.advance a c) cur = none) ∨
      ((∀ d ∈ ds, ¬d.Ends a c) ∧ ds.foldl (NotificationData.advance a c) cur = cur) := by
  induction ds generalizing cur with
  | nil => exact Or.inr ⟨by simp, rfl⟩
  | cons d ds ih =>
    have rest := @ih (d.advance a c cur) fun e he => noNew e (List.mem_cons_of_mem d he)
    rw [List.foldl_cons]
    by_cases ends : d.Ends a c
    · have torn : d.advance a c cur = none := by
        obtain ⟨who, type, receiver, sender, sub⟩ := ends
        simp [NotificationData.advance, NotificationData.For, who, type, receiver, sender, sub, valid]
      refine Or.inl ⟨⟨d, List.mem_cons_self, ends⟩, ?_⟩
      rcases rest with ⟨_, gone⟩ | ⟨_, same⟩
      · exact gone
      · exact same.trans torn
    · have kept : d.advance a c cur = cur := by
        unfold NotificationData.advance
        split
        next h =>
          obtain ⟨⟨who, receiver⟩, sender, _, sub⟩ := h
          cases htype : d.type with
          | newConnection => exact absurd htype (noNew d List.mem_cons_self ⟨who, receiver⟩)
          | newMessage => rfl
          | remoteDisconnect => exact absurd ⟨who, htype, receiver, sender, sub⟩ ends
        next => rfl
      rw [kept] at rest
      rcases rest with ⟨⟨e, he, hends⟩, gone⟩ | ⟨none, same⟩
      · exact Or.inl ⟨⟨e, List.mem_cons_of_mem d he, hends⟩, by rw [kept]; exact gone⟩
      · refine Or.inr ⟨fun e he => ?_, by rw [kept]; exact same⟩
        rcases List.mem_cons.mp he with rfl | he
        · exact ends
        · exact none e he

end

namespace LibServer

variable {s : LibServer} {c x a : Int} {d : NotificationData}

def known (s : LibServer) (c : Int) : Option Int := (s.findConnection c).map ConnectionInfo.subMemId

/-- Every client has one connection at most, and every memory belongs to a connection. -/
structure Sound (s : LibServer) : Prop where
  nodup : (s.connections.map ConnectionInfo.clientId).Nodup
  valid : ∀ con ∈ s.connections, isIdValid con.clientId = true
  slots : (s.mappings.map Prod.fst).Nodup
  owned : ∀ el ∈ s.mappings, ∃ con ∈ s.connections, con.subMemId = el.1

theorem known_eq_some (sound : s.Sound) : s.known c = some x ↔ ⟨c, x⟩ ∈ s.connections := by
  unfold known findConnection
  split
  next =>
    simp only [Option.map_eq_some_iff, find?_of_nodup sound.nodup]
    constructor
    · rintro ⟨con, ⟨mem, rfl⟩, rfl⟩
      exact mem
    · exact fun mem => ⟨_, ⟨mem, rfl⟩, rfl⟩
  next invalid =>
    simp only [Option.map_none, reduceCtorEq, false_iff]
    exact fun mem => invalid (sound.valid _ mem)

theorem known_eq_none (sound : s.Sound) : s.findConnection c = none ↔ ∀ con ∈ s.connections, con.clientId ≠ c := by
  unfold findConnection
  split
  next => simp [List.find?_eq_none]
  next invalid =>
    simp only [true_iff]
    rintro con mem rfl
    exact invalid (sound.valid con mem)

theorem Sound.slots_le (sound : s.Sound) : s.mappings.length ≤ s.connections.length := by
  have sub : s.mappings.map Prod.fst ⊆ s.connections.map ConnectionInfo.subMemId := by
    intro x hx
    obtain ⟨el, hel, rfl⟩ := List.mem_map.mp hx
    obtain ⟨con, hcon, same⟩ := sound.owned el hel
    exact List.mem_map.mpr ⟨con, hcon, same⟩
  simpa using (sound.slots.subperm sub).length_le

theorem findOrCreateSHM_ok (sound : s.Sound) (valid : isIdValid x = true)
    (room : s.mappings.length < maxServersMapping) :
    ∃ isMapped s', s.findOrCreateSHM x = some (isMapped, s') ∧ s'.connections = s.connections ∧
      s'.serverId = s.serverId ∧ (s'.mappings.map Prod.fst).Nodup ∧ ∀ el ∈ s'.mappings, el ∈ s.mappings ∨ el.1 = x := by
  unfold findOrCreateSHM
  simp only [valid, Bool.not_true, Bool.false_eq_true, if_false, if_neg (Nat.not_le.mpr room)]
  split
  next el hel => exact ⟨el.2, s, rfl, rfl, rfl, sound.slots, fun el hel => Or.inl hel⟩
  next hnone =>
    have fresh : ∀ el ∈ s.mappings, el.1 ≠ x := fun el hel same =>
      List.find?_eq_none.mp hnone el hel (decide_eq_true same)
    refine ⟨false, _, rfl, rfl, rfl, nodup_map_snoc sound.slots fresh, fun el hel => ?_⟩
    exact (List.mem_append.mp hel).imp_right fun h => by rw [List.mem_singleton.mp h]

theorem Sound.known_ext {s' : LibServer} (sound' : s'.Sound) {cur : Option Int}
    (same : ∀ x, ⟨c, x⟩ ∈ s'.connections ↔ cur = some x) : s'.known c = cur :=
  Option.ext fun x => (known_eq_some sound').trans (same x)

theorem Sound.append {k : Int} {mappings : List (Int × Bool)} (sound : s.Sound) (id : Int) (validK : isIdValid k = true)
    (unknown : s.findConnection k = none) (slots : (mappings.map Prod.fst).Nodup)
    (old : ∀ el ∈ mappings, (∃ own ∈ s.mappings, own.1 = el.1) ∨ el.1 = x) :
    (LibServer.mk id (s.connections ++ [⟨k, x⟩]) mappings).Sound ∧
      ∀ c, (LibServer.mk id (s.connections ++ [⟨k, x⟩]) mappings).known c =
        if c = k then (s.known c).or (some x) else s.known c := by
  have fresh := (known_eq_none sound).mp unknown
  have sound' : (LibServer.mk id (s.connections ++ [⟨k, x⟩]) mappings).Sound := by
    refine ⟨?_, fun con hcon => ?_, slots, fun el hel => ?_⟩
    · exact nodup_map_snoc sound.nodup fresh
    · rcases List.mem_append.mp hcon with hcon | hcon
      · exact sound.valid con hcon
      · rw [List.mem_singleton.mp hcon]
        exact validK
    · rcases old el hel with ⟨own, hown, same⟩ | same
      · obtain ⟨con, hcon, hx⟩ := sound.owned own hown
        exact ⟨con, List.mem_append_left _ hcon, hx.trans same⟩
      · exact ⟨⟨k, x⟩, by simp, same.symm⟩
  refine ⟨sound', fun c => sound'.known_ext fun y => ?_⟩
  have before := known_eq_some (c := c) (x := y) sound
  by_cases he : c = k
  · subst he
    have none : s.known c = none := by simp [known, unknown]
    have notIn : (⟨c, y⟩ : ConnectionInfo) ∉ s.connections := fun h => fresh _ h rfl
    simp [notIn, none, eq_comm]
  · simp [← before, he]

theorem addConnection_known {k : Int} (sound : s.Sound) (validK : isIdValid k = true) (validX : isIdValid x = true)
    (room : s.findConnection k = none → s.connections.length < maxServersConnections) :
    (s.addConnection k x).server.Sound ∧ (s.addConnection k x).server.serverId = s.serverId ∧
      ∀ c, (s.addConnection k x).server.known c = if c = k then (s.known c).or (some x) else s.known c := by
  unfold addConnection
  simp only [validK, validX, Bool.not_true, Bool.false_eq_true, if_false]
  split
  next con hcon =>
    refine ⟨sound, rfl, fun c => ?_⟩
    split
    next he => simp [he, known, hcon]
    next => rfl
  next hnone =>
    have space := room hnone
    obtain ⟨isMapped, s', hs', connections, serverId, slots, mappings⟩ :=
      findOrCreateSHM_ok sound validX (Nat.lt_of_le_of_lt sound.slots_le space)
    simp only [if_neg (Nat.not_le.mpr space), hs', connections]
    have old : ∀ el ∈ s'.mappings, (∃ own ∈ s.mappings, own.1 = el.1) ∨ el.1 = x :=
      fun el hel => (mappings el hel).imp_left fun h => ⟨el, h, rfl⟩
    split
    next =>
      obtain ⟨sound', known⟩ := sound.append s'.serverId validK hnone slots old
      exact ⟨sound', serverId, known⟩
    next =>
      have keys : (s'.mappings.map fun el => (el.1, el.2 || decide (el.1 = x))).map Prod.fst =
          s'.mappings.map Prod.fst := by
        rw [List.map_map]
        rfl
      obtain ⟨sound', known⟩ := sound.append s'.serverId validK hnone (keys.symm ▸ slots) (by
        intro el hel
        obtain ⟨was, hwas, rfl⟩ := List.mem_map.mp hel
        exact old was hwas)
      exact ⟨sound', serverId, known⟩

theorem disconnect_known {k : Int} (sound : s.Sound) : (s.disconnectFromClient (s.findConnection k)).2.Sound ∧
    (s.disconnectFromClient (s.findConnection k)).2.serverId = s.serverId ∧
      ∀ c, (s.disconnectFromClient (s.findConnection k)).2.known c = if c = k then none else s.known c := by
  cases hcon : s.findConnection k with
  | none =>
    refine ⟨sound, rfl, fun c => ?_⟩
    split
    next he => simp [disconnectFromClient, known, he, hcon]
    next => rfl
  | some con =>
    have mem : con ∈ s.connections ∧ con.clientId = k := by
      unfold findConnection at hcon
      split at hcon
      next => exact (find?_of_nodup sound.nodup).mp hcon
      next => cases hcon
    obtain ⟨mem, rfl⟩ := mem
    simp only [disconnectFromClient, eraseP_of_nodup sound.nodup]
    have sound' : (LibServer.mk s.serverId (s.connections.filter fun el => el.clientId ≠ con.clientId)
        (s.mappings.filter fun el => el.1 ≠ con.subMemId)).Sound := by
      refine ⟨sound.nodup.sublist (List.filter_sublist.map _), fun el hel => sound.valid el (List.mem_filter.mp hel).1,
        sound.slots.sublist (List.filter_sublist.map _), fun el hel => ?_⟩
      obtain ⟨old, other⟩ := List.mem_filter.mp hel
      obtain ⟨own, hown, same⟩ := sound.owned el old
      refine ⟨own, List.mem_filter.mpr ⟨hown, decide_eq_true fun he => of_decide_eq_true other ?_⟩, same⟩
      rw [← same, List.inj_on_of_nodup_map sound.nodup hown mem he]
    refine ⟨sound', trivial, fun c => Sound.known_ext sound' fun x => ?_⟩
    simp only [List.mem_filter, ← known_eq_some sound, decide_eq_true_eq]
    split
    next he => simp [he]
    next he => simp [he]

theorem handleNotification_other
    (other : ¬(d.For s.serverId ∧ isIdValid d.senderId = true ∧ isIdValid d.subMemId = true)) :
    s.handleNotification d = ⟨none, s⟩ := by
  unfold handleNotification
  split
  next => rfl
  next receiver =>
    split
    next => rfl
    next who =>
      split
      next => rfl
      next valid => exact absurd ⟨⟨not_not.mp who, not_not.mp receiver⟩, by simpa using valid⟩ other

theorem handleNotification_for (own : d.For s.serverId) (validC : isIdValid d.senderId = true)
    (validX : isIdValid d.subMemId = true) : s.handleNotification d = match d.type with
      | .newConnection => s.addConnection d.senderId d.subMemId
      | .newMessage => ⟨none, s⟩
      | .remoteDisconnect => ⟨none, (s.disconnectFromClient (s.findConnection d.senderId)).2⟩ := by
  unfold handleNotification
  refine (if_neg (not_not.mpr own.2)).trans ((if_neg (not_not.mpr own.1)).trans ((if_neg ?_).trans ?_))
  · simp [validC, validX]
  · cases d.type <;> rfl

/-- The table follows the notifications as long as there is room. -/
theorem handled_known (sound : s.Sound) (room : d.For s.serverId → d.type = .newConnection →
      s.findConnection d.senderId = none → s.connections.length < maxServersConnections) :
    (s.handleNotification d).server.Sound ∧ (s.handleNotification d).server.serverId = s.serverId ∧
      ∀ c, (s.handleNotification d).server.known c = d.advance s.serverId c (s.known c) := by
  by_cases gets : d.For s.serverId ∧ isIdValid d.senderId = true ∧ isIdValid d.subMemId = true
  case neg =>
    rw [handleNotification_other gets]
    exact ⟨sound, rfl, fun c => (advance_other fun h => gets ⟨h.1, h.2.1 ▸ h.2.2.1, h.2.2.2⟩).symm⟩
  obtain ⟨own, validC, validX⟩ := gets
  rw [handleNotification_for own validC validX]
  have entry : ∀ c cur, d.advance s.serverId c cur = if c = d.senderId then (match d.type with
      | .newConnection => cur.or (some d.subMemId)
      | .newMessage => cur
      | .remoteDisconnect => none) else cur := by
    intro c cur
    by_cases he : c = d.senderId
    · simp [NotificationData.advance, own, validC, validX, he]
    · rw [advance_other fun h => he h.2.1.symm, if_neg he]
  cases htype : d.type with
  | newConnection =>
    obtain ⟨sound', same, known⟩ := addConnection_known sound validC validX (room own htype)
    exact ⟨sound', same, fun c => by rw [known c, entry, htype]⟩
  | newMessage => exact ⟨sound, rfl, fun c => by rw [entry, htype, ite_self]⟩
  | remoteDisconnect =>
    obtain ⟨sound', same, known⟩ := disconnect_known (k := d.senderId) sound
    exact ⟨sound', same, fun c => by rw [entry, htype]; exact known c⟩

end LibServer

end Ripc
