import CommitReplay.LoginLimiter

/-! When the lock is taken in the order the clock was read, every bucket of the login limiter tracks
the attempts it has to count, and no window holds more of them than its limit. -/
namespace CommitReplay.LimiterBounds

open CommitReplay.PythonText CommitReplay.StampWindows CommitReplay.TransitionRuns CommitReplay.LoginLimiter

section Buckets

variable {T : Type} {username : Text}

@[simp] lemma change_same (l : Limiter T) (k : Key) (f : List T → List T) :
    (l.change k f).failures k = f (l.failures k) := Function.update_self ..

lemma change_other (l : Limiter T) {k j : Key} (f : List T → List T) (h : j ≠ k) :
    (l.change k f).failures j = l.failures j := Function.update_of_ne h ..

lemma key_ne_ipKey (hu : username ≠ []) (ip ip' : Text) : (username, ip) ≠ ipKey ip' := by
  simp [ipKey, hu]

/-- A stamp is added to two buckets. -/
lemma change_change (l : Limiter T) {k₁ k₂ : Key} (hne : k₁ ≠ k₂) (f : List T → List T) (k : Key) :
    ((l.change k₁ f).change k₂ f).failures k =
      if k = k₁ ∨ k = k₂ then f (l.failures k) else l.failures k := by
  by_cases h2 : k = k₂
  · subst h2
    rw [change_same, change_other l f hne.symm, if_pos (.inr rfl)]
  · rw [change_other _ f h2]
    by_cases h1 : k = k₁
    · subst h1
      rw [change_same, if_pos (.inl rfl)]
    · rw [change_other l f h1, if_neg (not_or.mpr ⟨h1, h2⟩)]

/-- The stamps a bucket has to count. -/
def tally (grants : List (Grant T)) (k : Key) : List T :=
  if k.1 = [] then (grants.filter fun g => ¬ g.given ∧ g.slot.ip = k.2).map (·.slot.stamp)
  else (grants.filter fun g => g.current ∧ (g.slot.username, g.slot.ip) = k).map (·.slot.stamp)

lemma tally_grant (grants : List (Grant T)) (slot : LoginSlot T) (k : Key) :
    tally (grants ++ [⟨slot, false, true⟩]) k =
      if k = (slot.username, slot.ip) ∨ k = ipKey slot.ip then tally grants k ++ [slot.stamp]
      else tally grants k := by
  obtain ⟨u, ip⟩ := k
  by_cases hk : u = []
  · subst hk
    by_cases hip : slot.ip = ip
    · simp [tally, ipKey, hip]
    · have hne : ip ≠ slot.ip := fun h => hip h.symm
      simp [tally, ipKey, hip, hne]
  · by_cases hself : (slot.username, slot.ip) = (u, ip)
    · simp [tally, hk, ← hself]
    · have hne : (u, ip) ≠ (slot.username, slot.ip) := fun h => hself h.symm
      rw [if_neg (not_or.mpr ⟨hne, key_ne_ipKey hk ip slot.ip⟩), tally, tally, if_neg hk, if_neg hk,
        List.filter_append, List.filter_cons_of_neg (by simp [hself]), List.filter_nil, List.append_nil]

lemma tally_ip (grants : List (Grant T)) (ip : Text) : tally grants (ipKey ip) =
    (grants.filter fun g => ¬ g.given ∧ g.slot.ip = ip).map (·.slot.stamp) := if_pos rfl

lemma tally_user (grants : List (Grant T)) {k : Key} (hk : k.1 ≠ []) : tally grants k =
    (grants.filter fun g => g.current ∧ (g.slot.username, g.slot.ip) = k).map (·.slot.stamp) := if_neg hk

/-- The grants once a slot among them is given to `succeed`. -/
def giveBack (a : List (Grant T)) (g : Grant T) (b : List (Grant T)) : List (Grant T) :=
  a.map (·.clear g.slot) ++ { g with given := true, current := false } :: b.map (·.clear g.slot)

lemma set_map_clear {grants : List (Grant T)} {n : ℕ} {g : Grant T} (h : grants[n]? = some g) :
    ∃ a b, grants = a ++ g :: b ∧
      (grants.map (·.clear g.slot)).set n { g with given := true, current := false } = giveBack a g b := by
  obtain ⟨hn, rfl⟩ := List.getElem?_eq_some_iff.mp h
  refine ⟨grants.take n, grants.drop (n + 1), ?_, ?_⟩
  · rw [List.getElem_cons_drop, List.take_append_drop]
  · rw [List.set_eq_take_append_cons_drop, if_pos (by simpa using hn), giveBack, List.map_take, List.map_drop]

lemma clear_slot (g : Grant T) (slot : LoginSlot T) : (g.clear slot).slot = g.slot := by
  rw [Grant.clear]
  split_ifs <;> rfl

lemma clear_given (g : Grant T) (slot : LoginSlot T) : (g.clear slot).given = g.given := by
  rw [Grant.clear]
  split_ifs <;> rfl

lemma slot_of_mem_giveBack {a b : List (Grant T)} {g h : Grant T} (hh : h ∈ giveBack a g b) :
    ∃ h' ∈ a ++ g :: b, h.slot = h'.slot := by
  rcases List.mem_append.mp hh with hh | hh
  · obtain ⟨h', hm, rfl⟩ := List.mem_map.mp hh
    exact ⟨h', List.mem_append_left _ hm, clear_slot h' g.slot⟩
  · rcases List.mem_cons.mp hh with rfl | hh
    · exact ⟨g, by simp, rfl⟩
    · obtain ⟨h', hm, rfl⟩ := List.mem_map.mp hh
      exact ⟨h', by simp [hm], clear_slot h' g.slot⟩

/-- An address no longer counts the slot given back. -/
lemma tally_giveBack_ip [LinearOrder T] {a b : List (Grant T)} {g : Grant T} (hg : g.given = false) (ip : Text) :
    (if ip = g.slot.ip then (tally (a ++ g :: b) (ipKey ip)).erase g.slot.stamp
      else tally (a ++ g :: b) (ipKey ip)).Perm (tally (giveBack a g b) (ipKey ip)) := by
  have hclear : ∀ gs : List (Grant T),
      ((gs.map (·.clear g.slot)).filter fun h => ¬ h.given ∧ h.slot.ip = ip).map (·.slot.stamp) = (gs.filter fun h => ¬ h.given ∧ h.slot.ip = ip).map (·.slot.stamp) := by
    intro gs
    rw [List.filter_map, List.map_map]
    simp only [Function.comp_def, clear_given, clear_slot]
  have hnew : tally (giveBack a g b) (ipKey ip) =
      (a.filter fun h => ¬ h.given ∧ h.slot.ip = ip).map (·.slot.stamp) ++
        (b.filter fun h => ¬ h.given ∧ h.slot.ip = ip).map (·.slot.stamp) := by
    rw [tally_ip, giveBack, List.filter_append, List.map_append, List.filter_cons_of_neg (by simp),
      hclear a, hclear b]
  rw [hnew, tally_ip, List.filter_append, List.map_append]
  split_ifs with hip
  · rw [List.filter_cons_of_pos (by simp [hg, hip]), List.map_cons]
    refine (List.perm_middle.erase _).trans ?_
    rw [List.erase_cons_head]
  · rw [List.filter_cons_of_neg (by simp [Ne.symm hip])]

lemma not_current_clear {g : Grant T} {k : Key} (hk : k = (g.slot.username, g.slot.ip)) (h : Grant T) :
    ¬ decide ((h.clear g.slot).current ∧
      ((h.clear g.slot).slot.username, (h.clear g.slot).slot.ip) = k) = true := by
  rw [clear_slot, Grant.clear]
  split_ifs with hs
  · simp
  · intro hc
    have he := (of_decide_eq_true hc).2.trans hk
    exact hs (by simpa using he)

/-- A success forgets the attempts of its username and address, and of no other. -/
lemma tally_giveBack {a b : List (Grant T)} {g : Grant T} {k : Key} (hk : k.1 ≠ []) :
    tally (giveBack a g b) k =
      if k = (g.slot.username, g.slot.ip) then [] else tally (a ++ g :: b) k := by
  rw [tally_user _ hk]
  split_ifs with hkey
  · rw [List.map_eq_nil_iff, List.filter_eq_nil_iff]
    intro h hh
    rw [giveBack] at hh
    rcases List.mem_append.mp hh with hh | hh
    · obtain ⟨h', -, rfl⟩ := List.mem_map.mp hh
      exact not_current_clear hkey h'
    · rcases List.mem_cons.mp hh with rfl | hh
      · simp
      · obtain ⟨h', -, rfl⟩ := List.mem_map.mp hh
        exact not_current_clear hkey h'
  · have hclear : ∀ gs : List (Grant T), ((gs.map (·.clear g.slot)).filter fun h =>
        h.current ∧ (h.slot.username, h.slot.ip) = k).map (·.slot.stamp) =
          (gs.filter fun h => h.current ∧ (h.slot.username, h.slot.ip) = k).map (·.slot.stamp) := by
      intro gs
      rw [List.filter_map, List.map_map]
      simp only [Function.comp_def, clear_slot]
      refine congrArg _ (List.filter_congr fun h _ => ?_)
      by_cases hh : (h.slot.username, h.slot.ip) = k
      · have hother : ¬ (h.slot.username = g.slot.username ∧ h.slot.ip = g.slot.ip) := by
          rintro ⟨h1, h2⟩
          exact hkey (by rw [← hh, h1, h2])
        rw [Grant.clear, if_neg hother]
      · simp [hh]
    rw [tally_user _ hk, giveBack, List.filter_append, List.filter_append, List.map_append, List.map_append,
      List.filter_cons_of_neg (by simp), List.filter_cons_of_neg (by simp [Ne.symm hkey]), hclear a, hclear b]

end Buckets

variable {T : Type} [AddCommGroup T] [LinearOrder T] {cfg : LimiterConfig T}

section Acquire

variable {l : Limiter T} {now : T} {username ip : Text}

/-- The buckets once both of an attempt's are pruned. -/
def settled (cfg : LimiterConfig T) (now : T) (username ip : Text) (l : Limiter T) : Limiter T :=
  ((sweep cfg now l).change (username, ip) (prune cfg.windowS now)).change (ipKey ip)
    (prune cfg.windowS now)

lemma waitFor_eq {q : List T} {limit : ℕ} (hpos : 0 < limit) :
    (q.length < limit ∧ waitFor cfg now q limit = some []) ∨
      limit ≤ q.length ∧ ∃ x, q[q.length - limit]? = some x ∧
        waitFor cfg now q limit = some [max 0 (cfg.windowS - (now - x))] := by
  rw [waitFor]
  by_cases hfull : limit ≤ q.length
  · have hlt : q.length - limit < q.length := by omega
    refine .inr ⟨hfull, q[q.length - limit], List.getElem?_eq_getElem hlt, ?_⟩
    rw [if_pos hfull, fromEnd, if_neg hpos.ne', List.getElem?_eq_getElem hlt]
    rfl
  · exact .inl ⟨not_le.mp hfull, if_neg hfull⟩

/-- At this time a bucket has room, or the stamp that fills it has left the window. -/
def Eased (cfg : LimiterConfig T) (now : T) (q : List T) (limit : ℕ) : Prop :=
  q.length < limit ∨ ∃ x, q[q.length - limit]? = some x ∧ cfg.windowS ≤ now - x

/-- An attempt is charged to both buckets when both have room, and is told to wait out the longer of
the waits otherwise. -/
lemma acquire_cases [IsOrderedAddMonoid T] (hu : username ≠ []) (hl : 0 < cfg.limit) (hi : 0 < cfg.ipLimit) :
    (((settled cfg now username ip l).failures (username, ip)).length < cfg.limit ∧
      ((settled cfg now username ip l).failures (ipKey ip)).length < cfg.ipLimit ∧
      acquire cfg now username ip l = (.granted ⟨username, ip, now⟩,
        ((settled cfg now username ip l).change (username, ip) (· ++ [now])).change (ipKey ip)
          (· ++ [now]))) ∨
    ∃ w, acquire cfg now username ip l = (.limited w, settled cfg now username ip l) ∧
      (cfg.limit ≤ ((settled cfg now username ip l).failures (username, ip)).length ∨
        cfg.ipLimit ≤ ((settled cfg now username ip l).failures (ipKey ip)).length) ∧
      Eased cfg (now + w) ((settled cfg now username ip l).failures (username, ip)) cfg.limit ∧
      Eased cfg (now + w) ((settled cfg now username ip l).failures (ipKey ip)) cfg.ipLimit := by
  have h1 : ((sweep cfg now l).change (username, ip) (prune cfg.windowS now)).failures (username, ip) =
      (settled cfg now username ip l).failures (username, ip) :=
    (change_other _ _ (key_ne_ipKey hu ip ip)).symm
  have heased : ∀ {x w}, max 0 (cfg.windowS - (now - x)) ≤ w → cfg.windowS ≤ now + w - x := by
    intro x w hle
    have hsub := sub_le_iff_le_add.mp ((le_max_right _ _).trans hle)
    rwa [add_comm now w, add_sub_assoc]
  rcases @waitFor_eq _ _ _ cfg now ((settled cfg now username ip l).failures (username, ip)) _ hl with
    ⟨hroom, hw⟩ | ⟨hfull, x, hx, hw⟩ <;>
  rcases @waitFor_eq _ _ _ cfg now ((settled cfg now username ip l).failures (ipKey ip)) _ hi with
    ⟨hroom', hw'⟩ | ⟨hfull', y, hy, hw'⟩ <;>
  rw [settled] at hw'
  · refine .inl ⟨hroom, hroom', ?_⟩
    simp only [acquire, h1, hw, hw', List.nil_append]
    rfl
  · refine .inr ⟨max 0 (cfg.windowS - (now - y)), ?_, .inr hfull', .inl hroom, .inr ⟨y, hy, heased le_rfl⟩⟩
    simp only [acquire, h1, hw, hw', List.nil_append]
    rfl
  · refine .inr ⟨max 0 (cfg.windowS - (now - x)), ?_, .inl hfull, .inr ⟨x, hx, heased le_rfl⟩, .inl hroom'⟩
    simp only [acquire, h1, hw, hw', List.append_nil]
    rfl
  · refine .inr ⟨max (max 0 (cfg.windowS - (now - x))) (max 0 (cfg.windowS - (now - y))), ?_, .inl hfull,
      .inr ⟨x, hx, heased (le_max_left _ _)⟩, .inr ⟨y, hy, heased (le_max_right _ _)⟩⟩
    simp only [acquire, h1, hw, hw', List.cons_append, List.nil_append]
    rfl

/-- What holds of a bucket and is kept by pruning holds of it once settled. -/
lemma settled_induct {P : List T → Prop} (k : Key) (h : P (l.failures k))
    (hp : ∀ q, P q → P (prune cfg.windowS now q)) : P ((settled cfg now username ip l).failures k) := by
  have hsweep : P ((sweep cfg now l).failures k) := by
    rw [sweep]
    split_ifs
    · exact hp _ h
    · exact h
  have hchange : ∀ (m : Limiter T) (j : Key), P (m.failures k) →
      P ((m.change j (prune cfg.windowS now)).failures k) := by
    intro m j hm
    by_cases hj : k = j
    · subst hj
      rw [change_same]
      exact hp _ hm
    · rwa [change_other m _ hj]
  exact hchange _ _ (hchange _ _ hsweep)

lemma shed_settled (k : Key) : Shed cfg now (l.failures k) ((settled cfg now username ip l).failures k) := by
  refine settled_induct k ⟨[], rfl, by simp⟩ fun q ⟨dropped, hq, hold⟩ => ?_
  obtain ⟨more, hmore, hold'⟩ := prune_split cfg.windowS now q
  refine ⟨dropped ++ more, by rw [List.append_assoc, ← hmore, hq], fun x hx => ?_⟩
  exact (List.mem_append.mp hx).elim (hold x) (hold' x)

/-- Both buckets of an attempt are at most what pruning leaves of them. -/
lemma length_settled_le (hu : username ≠ []) {k : Key} (hk : k = (username, ip) ∨ k = ipKey ip) :
    ((settled cfg now username ip l).failures k).length ≤ (prune cfg.windowS now (l.failures k)).length := by
  have hsweep : ((prune cfg.windowS now ((sweep cfg now l).failures k))).length ≤
      (prune cfg.windowS now (l.failures k)).length := by
    rw [sweep]
    split_ifs
    · exact (List.dropWhile_suffix _).length_le
    · exact le_rfl
  rw [settled]
  rcases hk with rfl | rfl
  · rwa [change_other _ _ (key_ne_ipKey hu ip ip), change_same]
  · rwa [change_same, change_other _ _ (key_ne_ipKey hu ip ip).symm]

lemma room_settled [IsOrderedAddMonoid T] (hu : username ≠ []) {k : Key}
    (hk : k = (username, ip) ∨ k = ipKey ip) (hs : (l.failures k).Pairwise (· ≤ ·)) {limit : ℕ}
    (h : Eased cfg now (l.failures k) limit) :
    ((settled cfg now username ip l).failures k).length < limit := by
  refine (length_settled_le hu hk).trans_lt ?_
  rcases h with hlt | ⟨x, hx, hold⟩
  · exact (List.dropWhile_suffix _).length_le.trans_lt hlt
  · exact length_prune_lt hs hx hold

end Acquire

section Invariant

def limitOf (cfg : LimiterConfig T) (k : Key) : ℕ := if k.1 = [] then cfg.ipLimit else cfg.limit

structure Inv (cfg : LimiterConfig T) (s : Desk T) : Prop where
  named : ∀ g ∈ s.grants, g.slot.username ≠ []
  called : ∀ i key now, s.pending i = some (key, now) → key.1 ≠ []
  tracks : ∀ k, Tracks cfg.windowS s.entered (s.limiter.failures k) (tally s.grants k)
  within : ∀ k, Within cfg.windowS (limitOf cfg k) (tally s.grants k)

lemma inv_start (clock : T) : Inv cfg (start clock) where
  named := by simp [start]
  called := by simp [start]
  tracks k := by
    have hnil : tally (start clock).grants k = [] := by simp [tally, start]
    rw [hnil]
    exact tracks_nil
  within k := by
    have hnil : tally (start clock).grants k = [] := by simp [tally, start]
    rw [hnil]
    exact within_nil _

lemma bounded_of_inv {s : Desk T} (h : Inv cfg s) : Bounded cfg s := by
  refine ⟨fun ip => h.within (ipKey ip), fun key => ?_⟩
  by_cases hk : key.1 = []
  · have hnil : running s key = [] := by
      rw [running, List.map_eq_nil_iff, List.filter_eq_nil_iff]
      intro g hg hgk
      have hkey : (g.slot.username, g.slot.ip) = key := (of_decide_eq_true hgk).2
      exact h.named g hg ((congrArg Prod.fst hkey).trans hk)
    rw [hnil]
    exact within_nil _
  · have hw := h.within key
    rwa [tally, if_neg hk, limitOf, if_neg hk] at hw

lemma inv_enter [IsOrderedAddMonoid T] (hl : 0 < cfg.limit) (hi : 0 < cfg.ipLimit)
    (hw : 0 < cfg.windowS) {s : Desk T} {i : ℕ} {key : Key} {now : T}
    (hp : s.pending i = some (key, now)) (hlast : ∀ x ∈ s.entered, x ≤ now) (h : Inv cfg s) :
    Inv cfg (step cfg s (.enter i)) := by
  have hu := h.called i key now hp
  have hcalled : ∀ j k t, Function.update s.pending i none j = some (k, t) → k.1 ≠ [] := by
    intro j k t hj
    by_cases hji : j = i
    · subst hji
      simp at hj
    · rw [Function.update_of_ne hji] at hj
      exact h.called j k t hj
  have hseen : ∀ x ∈ s.entered ++ [now], x ≤ now := by
    intro x hx
    rcases List.mem_append.mp hx with hx | hx
    · exact hlast x hx
    · exact (List.mem_singleton.mp hx).le
  have hsettled : ∀ k, Tracks cfg.windowS (s.entered ++ [now])
      ((settled cfg now key.1 key.2 s.limiter).failures k) (tally s.grants k) := fun k =>
    settled_induct (P := fun q => Tracks cfg.windowS (s.entered ++ [now]) q (tally s.grants k)) k
      ((h.tracks k).see now) fun q hq => hq.prune (by simp)
  rcases @acquire_cases T _ _ cfg s.limiter now key.1 key.2 _ hu hl hi with
    ⟨hroom, hroom', hacq⟩ | ⟨w, hacq, -, -, -⟩
  · have hstep : step cfg s (.enter i) = ⟨((settled cfg now key.1 key.2 s.limiter).change (key.1, key.2)
        (· ++ [now])).change (ipKey key.2) (· ++ [now]), s.clock, Function.update s.pending i none,
        s.entered ++ [now], s.grants ++ [⟨⟨key.1, key.2, now⟩, false, true⟩]⟩ := by
      simp only [step, hp, hacq]
    rw [hstep]
    refine ⟨?_, hcalled, fun k => ?_, fun k => ?_⟩
    · intro g hg
      rcases List.mem_append.mp hg with hg | hg
      · exact h.named g hg
      · rw [List.mem_singleton.mp hg]
        exact hu
    · rw [change_change _ (key_ne_ipKey hu _ _), tally_grant]
      split_ifs
      · exact (hsettled k).push hw (by simp) hseen
      · exact hsettled k
    · rw [tally_grant]
      split_ifs with hk
      · refine (h.within k).push (hsettled k) hseen ?_
        rcases hk with rfl | rfl
        · rwa [limitOf, if_neg hu]
        · simpa [limitOf, ipKey] using hroom'
      · exact h.within k
  · have hstep : step cfg s (.enter i) = ⟨settled cfg now key.1 key.2 s.limiter, s.clock,
        Function.update s.pending i none, s.entered ++ [now], s.grants⟩ := by
      simp only [step, hp, hacq]
    rw [hstep]
    exact ⟨h.named, hcalled, hsettled, h.within⟩

lemma inv_succeed {s : Desk T} {n : ℕ} (hgiven : ∀ g ∈ s.grants[n]?, g.given = false) (h : Inv cfg s) :
    Inv cfg (step cfg s (.succeed n)) := by
  cases hn : s.grants[n]? with
  | none =>
    have hstep : step cfg s (.succeed n) = s := by simp only [step, hn]
    rwa [hstep]
  | some g =>
    obtain ⟨a, b, hab, hset⟩ := set_map_clear hn
    have hu : g.slot.username ≠ [] := h.named g (by simp [hab])
    have hstep : step cfg s (.succeed n) =
        ⟨succeed g.slot s.limiter, s.clock, s.pending, s.entered, giveBack a g b⟩ := by
      simp only [step, hn, hset]
    rw [hstep]
    refine ⟨fun g' hg' => ?_, h.called, fun k => ?_, fun k => ?_⟩
    · obtain ⟨h', hm, he⟩ := slot_of_mem_giveBack hg'
      rw [he]
      exact h.named h' (hab ▸ hm)
    · have htracks := h.tracks k
      rw [hab] at htracks
      by_cases hk : k.1 = []
      · obtain ⟨ip, rfl⟩ : ∃ ip, k = ipKey ip := ⟨k.2, Prod.ext hk rfl⟩
        refine Tracks.perm ?_ (tally_giveBack_ip (hgiven g hn) ip)
        rw [succeed]
        by_cases hip : ip = g.slot.ip
        · subst hip
          rw [if_pos rfl, change_same, change_other _ _ (key_ne_ipKey hu _ _).symm]
          exact htracks.erase _
        · have hne : ipKey ip ≠ ipKey g.slot.ip := fun he => hip (congrArg Prod.snd he)
          rwa [if_neg hip, change_other _ _ hne, change_other _ _ (key_ne_ipKey hu _ _).symm]
      · have hne : k ≠ ipKey g.slot.ip := fun he => hk (congrArg Prod.fst he)
        rw [tally_giveBack hk, succeed, change_other _ _ hne]
        split_ifs with hkey
        · rw [hkey, change_same]
          exact tracks_nil
        · rwa [change_other _ _ hkey]
    · have hwithin := h.within k
      rw [hab] at hwithin
      by_cases hk : k.1 = []
      · obtain ⟨ip, rfl⟩ : ∃ ip, k = ipKey ip := ⟨k.2, Prod.ext hk rfl⟩
        refine Within.perm ?_ (tally_giveBack_ip (hgiven g hn) ip)
        split_ifs
        · exact hwithin.sublist List.erase_sublist
        · exact hwithin
      · rw [tally_giveBack hk]
        split_ifs
        · exact within_nil _
        · exact hwithin

lemma inv_read {s : Desk T} {i : ℕ} {key : Key} {now : T} (hu : key.1 ≠ []) (h : Inv cfg s) :
    Inv cfg (step cfg s (.read i key now)) := by
  refine ⟨h.named, fun j k t hj => ?_, h.tracks, h.within⟩
  by_cases hji : j = i
  · subst hji
    have hpair : (key, now) = (k, t) := by simpa [step] using hj
    have hkey : key = k := congrArg Prod.fst hpair
    exact hkey ▸ hu
  · refine h.called j k t ?_
    simpa [step, Function.update_of_ne hji] using hj

theorem inv_step [IsOrderedAddMonoid T] (hl : 0 < cfg.limit) (hi : 0 < cfg.ipLimit)
    (hw : 0 < cfg.windowS) (s : Desk T) (e : Event T) (h : Inv cfg s) (ho : Orderly s e) :
    Inv cfg (step cfg s e) := by
  cases e with
  | read i key now => exact inv_read ho h
  | enter i =>
    cases hp : s.pending i with
    | none =>
      have hstep : step cfg s (.enter i) = s := by simp only [step, hp]
      rwa [hstep]
    | some p => exact inv_enter hl hi hw hp (ho p.1 p.2 hp) h
  | succeed n => exact inv_succeed ho h

end Invariant

section Fairness

variable {s : Desk T}

lemma fair_succeed (h : Inv cfg s) {n : ℕ} (hgiven : ∀ g ∈ s.grants[n]?, g.given = false) :
    Fair cfg s (.succeed n) := by
  intro ip x hx
  have hcount := (h.tracks (ipKey ip)).count_eq x hx
  have hcharged : ∀ t : Desk T, charged t ip = tally t.grants (ipKey ip) := fun t => (tally_ip t.grants ip).symm
  rw [hcharged]
  cases hn : s.grants[n]? with
  | none =>
    have hstep : step cfg s (.succeed n) = s := by simp only [step, hn]
    rwa [hstep]
  | some g =>
    obtain ⟨a, b, hab, hset⟩ := set_map_clear hn
    have hu : g.slot.username ≠ [] := h.named g (by simp [hab])
    have hstep : step cfg s (.succeed n) =
        ⟨succeed g.slot s.limiter, s.clock, s.pending, s.entered, giveBack a g b⟩ := by
      simp only [step, hn, hset]
    rw [hstep, ← (tally_giveBack_ip (hgiven g hn) ip).count_eq, ← hab, succeed]
    by_cases hip : ip = g.slot.ip
    · subst hip
      rw [if_pos rfl, change_same, change_other _ _ (key_ne_ipKey hu _ _).symm, List.count_erase,
        List.count_erase, hcount]
    · have hne : ipKey ip ≠ ipKey g.slot.ip := fun he => hip (congrArg Prod.snd he)
      rw [if_neg hip, change_other _ _ hne, change_other _ _ (key_ne_ipKey hu _ _).symm, hcount]

variable [IsOrderedAddMonoid T]

/-- An attempt refused is granted when it is made again after the wait it was given. -/
lemma granted_after {l : Limiter T} {now w : T} {username ip : Text} (hu : username ≠ [])
    (hl : 0 < cfg.limit) (hi : 0 < cfg.ipLimit) (hs : ∀ k, (l.failures k).Pairwise (· ≤ ·))
    (h : acquire cfg now username ip l = (.limited w, settled cfg now username ip l)) :
    ∃ slot, (acquire cfg (now + w) username ip (settled cfg now username ip l)).1 = .granted slot := by
  have hs' : ∀ k, ((settled cfg now username ip l).failures k).Pairwise (· ≤ ·) := fun k =>
    settled_induct (P := fun q => q.Pairwise (· ≤ ·)) k (hs k) fun q hq => hq.sublist (List.dropWhile_sublist _)
  obtain ⟨heased, heased'⟩ : Eased cfg (now + w) ((settled cfg now username ip l).failures (username, ip))
      cfg.limit ∧ Eased cfg (now + w) ((settled cfg now username ip l).failures (ipKey ip)) cfg.ipLimit := by
    rcases @acquire_cases T _ _ cfg l now username ip _ hu hl hi with ⟨-, -, hacq⟩ | ⟨w', hacq, -, h1, h2⟩
    · rw [hacq] at h
      cases congrArg Prod.fst h
    · rw [hacq] at h
      cases congrArg Prod.fst h
      exact ⟨h1, h2⟩
  have hroom := room_settled hu (.inl rfl) (hs' _) heased
  have hroom' := room_settled hu (.inr rfl) (hs' _) heased'
  rcases @acquire_cases T _ _ cfg (settled cfg now username ip l) (now + w) username ip _ hu hl hi with
    ⟨-, -, hacq⟩ | ⟨-, -, hfull, -⟩
  · exact ⟨_, congrArg Prod.fst hacq⟩
  · exact absurd hfull (not_or.mpr ⟨not_le.mpr hroom, not_le.mpr hroom'⟩)

lemma fair_enter (hl : 0 < cfg.limit) (hi : 0 < cfg.ipLimit) (h : Inv cfg s) (i : ℕ) :
    Fair cfg s (.enter i) := by
  intro key now hp
  have hu := h.called i key now hp
  rcases @acquire_cases T _ _ cfg s.limiter now key.1 key.2 _ hu hl hi with ⟨-, -, hacq⟩ | ⟨w, hacq, -⟩
  · rw [hacq]
    refine ⟨fun slot _ k => ⟨(settled cfg now key.1 key.2 s.limiter).failures k, shed_settled k, ?_⟩,
      fun w hw => by cases hw⟩
    rw [change_change _ (key_ne_ipKey hu _ _)]
    split_ifs
    · exact List.prefix_append _ _
    · exact List.prefix_refl _
  · rw [hacq]
    refine ⟨fun slot hslot => (by cases hslot), fun w' hw' => ⟨fun k => shed_settled k, ?_⟩⟩
    cases hw'
    exact granted_after hu hl hi (fun k => (h.tracks k).sorted) hacq

/-- On every run that is orderly at each event, the guesses stay within their bounds and each event
is fair. -/
theorem bounded_along (hl : 0 < cfg.limit) (hi : 0 < cfg.ipLimit) (hw : 0 < cfg.windowS) (clock : T)
    (events : List (Event T))
    (h : Along (step cfg) (fun s e => Allowed s e ∧ Orderly s e) (start clock) events) :
    Bounded cfg (runFrom (step cfg) (start clock) events) ∧
      Along (step cfg) (Fair cfg) (start clock) events := by
  have hstep : ∀ s e, Inv cfg s → Allowed s e ∧ Orderly s e → Inv cfg (step cfg s e) := fun s e hs he =>
    inv_step hl hi hw s e hs he.2
  refine ⟨bounded_of_inv (h.preserves hstep (inv_start clock)), ?_⟩
  refine h.strengthen hstep (fun s e hs he => ?_) (inv_start clock)
  cases e with
  | read i key now => trivial
  | enter i => exact fair_enter hl hi hs i
  | succeed n => exact fair_succeed hs he.2

end Fairness

section Sample

/-- The limiter's own defaults, in seconds. -/
def defaultConfig : LimiterConfig ℤ := ⟨5, 20, 60⟩

def sampleKey : Key := ("paul".toList, "h".toList)

/-- A call of one thread, with no other between its reading and its lock. -/
def attempt (i : ℕ) (now : ℤ) : List (Event ℤ) := [.read i sampleKey now, .enter i]

/-- Five guesses, and two that take the lock in the other order than they read the clock. -/
def overtaken : List (Event ℤ) :=
  attempt 0 1 ++ attempt 1 1 ++ attempt 2 1 ++ attempt 3 1 ++ attempt 4 1 ++
    [.read 5 sampleKey 60, .read 6 sampleKey 61, .enter 6, .enter 5]

lemma allowed_overtaken : Along (step defaultConfig) Allowed (start 0) overtaken :=
  ⟨⟨rfl, by decide⟩, rfl, ⟨rfl, by decide⟩, rfl, ⟨rfl, by decide⟩, rfl, ⟨rfl, by decide⟩, rfl,
    ⟨rfl, by decide⟩, rfl, ⟨rfl, by decide⟩, ⟨rfl, by decide⟩, rfl, rfl, trivial⟩

/-- The later reading takes the lock first and prunes the five stamps the earlier one is still within a
window of. -/
theorem not_forall_bounded : ¬ ∀ events : List (Event ℤ), Along (step defaultConfig) Allowed (start 0) events →
    Bounded defaultConfig (runFrom (step defaultConfig) (start 0) events) ∧
      Along (step defaultConfig) (Fair defaultConfig) (start 0) events := by
  intro h
  have hwithin := (h overtaken allowed_overtaken).1.2 sampleKey 1
  have hrunning : running (runFrom (step defaultConfig) (start 0) overtaken) sampleKey =
      [1, 1, 1, 1, 1, 61, 60] := by rfl
  rw [hrunning] at hwithin
  exact absurd hwithin (by decide)

/-- Two guesses that take the lock as they read the clock, the first of them right. -/
def inOrder : List (Event ℤ) := attempt 0 1 ++ attempt 1 60 ++ [.succeed 0]

theorem bounded_inOrder : Bounded defaultConfig (runFrom (step defaultConfig) (start 0) inOrder) ∧
    Along (step defaultConfig) (Fair defaultConfig) (start 0) inOrder := by
  have hname : sampleKey.1 ≠ [] := by decide
  refine bounded_along (by decide) (by decide) (by decide) 0 inOrder
    ⟨⟨⟨rfl, by decide⟩, hname⟩, ⟨rfl, ?_⟩, ⟨⟨rfl, by decide⟩, hname⟩, ⟨rfl, ?_⟩,
      ⟨Nat.zero_lt_succ 1, ?_⟩, trivial⟩
  · exact fun key now _ x hx => absurd hx List.not_mem_nil
  · intro key now hp x hx
    have hnow : (60 : ℤ) = now := congrArg Prod.snd (Option.some.inj hp)
    have hx1 : x = 1 := List.mem_singleton.mp hx
    omega
  · intro g hg
    obtain rfl := Option.mem_some.mp hg
    rfl

end Sample

end CommitReplay.LimiterBounds
