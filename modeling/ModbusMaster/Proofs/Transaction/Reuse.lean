import ModbusMaster.Proofs.Numbering
import ModbusMaster.Proofs.Transaction.Table
namespace ModbusMaster.TransactionTable
variable {t u v : TransactionTable} {r : TransactionRecord} {id : UInt16} {n start : Nat}

-- The cursor goes round the ids once before it meets an id again, and skips only ids
-- that are in use. So an id comes back late: not before all ids but those that were in
-- use when it was given out have been given out themselves.

inductive Use where
  | reserve (r : TransactionRecord)
  | release (id : UInt16)
  deriving Repr

def use (t : TransactionTable) : Use → Option UInt16 × TransactionTable
  | .reserve r => match t.reserve? r with
    | some (id,u) => (some id,u)
    | none => (none,t)
  | .release id => (none,t.release id)

def uses (t : TransactionTable) : List Use → List UInt16 × TransactionTable
  | [] => ([],t)
  | a::rest =>
    let (id,u) := t.use a
    let (ids,v) := u.uses rest
    (id.toList ++ ids,v)

def idAt (t : TransactionTable) (n : Nat) : UInt16 := UInt16.ofNat (1+n%t.maxId.toNat)

-- Facts of every table that has only been used: it has an id to spare, and its cursor
-- is where some number of moves leads.
structure Sound (t : TransactionTable) : Prop where
  spare : t.capacity < t.maxId.toNat
  within : t.len ≤ t.capacity
  cursor : ∃ n, t.next = t.idAt n

theorem idAt_toNat (spare : t.capacity < t.maxId.toNat) (n : Nat) : (t.idAt n).toNat = 1+n%t.maxId.toNat :=
  Numbering.nth_toNat (by omega) n

theorem advance_idAt (spare : t.capacity < t.maxId.toNat) (n : Nat) : t.advance (t.idAt n) = t.idAt (n+1) :=
  Numbering.next_nth (by omega) n

theorem idAt_inj (spare : t.capacity < t.maxId.toNat) {m : Nat} (same : t.idAt m = t.idAt n) :
    m%t.maxId.toNat = n%t.maxId.toNat := Numbering.nth_turns (by omega) same

theorem free?_idAt (spare : t.capacity < t.maxId.toNat) {fuel : Nat} (found : t.free? fuel (t.idAt n) = some id) :
    ∃ k, n ≤ k ∧ id = t.idAt k ∧ ∀ j, n ≤ j → j < k → t.contains (t.idAt j) := by
  induction fuel generalizing n with
  | zero => cases found
  | succ fuel ih =>
    simp only [free?] at found
    split at found
    · rename_i used
      rw [advance_idAt spare] at found
      obtain ⟨k,later,there,passed⟩ := ih found
      refine ⟨k,by omega,there,?_⟩
      intro j low high
      rcases Nat.lt_or_ge n j with beyond | here
      · exact passed j beyond high
      · rw [show j = n by omega]
        exact used
    · cases Option.some.inj found
      exact ⟨n,Nat.le_refl n,rfl,fun j low high => by omega⟩

theorem empty_maxId (capacity : Nat) (maxId : UInt16) :
    (empty capacity maxId).maxId.toNat = max maxId.toNat (max 1 (min capacity 65534)+1) := by
  have clamped : max 1 (min capacity 65534)+1 < UInt16.size := show _ < 65536 by omega
  have widened : (UInt16.ofNat (max 1 (min capacity 65534)+1)).toNat = max 1 (min capacity 65534)+1 :=
    UInt16.toNat_ofNat_of_lt' clamped
  change (ite (maxId ≤ UInt16.ofNat (max 1 (min capacity 65534)+1)) _ _ : UInt16).toNat = _
  split
  · rename_i below
    have := UInt16.le_iff_toNat_le.mp below
    omega
  · rename_i above
    have := mt UInt16.le_iff_toNat_le.mpr above
    omega

theorem sound_empty (capacity : Nat) (maxId : UInt16) : Sound (empty capacity maxId) := by
  have spare : (empty capacity maxId).capacity < (empty capacity maxId).maxId.toNat := by
    rw [empty_maxId]
    exact Nat.lt_of_lt_of_le (Nat.lt_succ_self _) (Nat.le_max_right _ _)
  refine ⟨spare,by simp [len,empty],0,?_⟩
  apply UInt16.toNat_inj.mp
  rw [idAt_toNat spare,Nat.zero_mod]
  rfl

theorem sound_release (sound : Sound t) (id : UInt16) : Sound (t.release id) := by
  have shrunk : (t.release id).len ≤ t.len := Std.TreeMap.size_erase_le
  exact ⟨sound.spare,Nat.le_trans shrunk sound.within,sound.cursor⟩

theorem reserve?_idAt (spare : t.capacity < t.maxId.toNat) (cursorAt : t.next = t.idAt n)
    (taken : t.reserve? r = some (id,u)) :
    ∃ k, n ≤ k ∧ id = t.idAt k ∧ u.next = t.idAt (k+1) ∧ ∀ j, n ≤ j → j < k → t.contains (t.idAt j) := by
  obtain ⟨_,found,rfl⟩ := reserve?_some taken
  rw [cursorAt] at found
  obtain ⟨k,later,there,passed⟩ := free?_idAt spare found
  exact ⟨k,later,there,by rw [there]; exact advance_idAt spare k,passed⟩

theorem sound_reserve (sound : Sound t) (taken : t.reserve? r = some (id,u)) : Sound u := by
  obtain ⟨n,cursorAt⟩ := sound.cursor
  obtain ⟨k,_,_,next,_⟩ := reserve?_idAt sound.spare cursorAt taken
  obtain ⟨room,_,rfl⟩ := reserve?_some taken
  refine ⟨sound.spare,?_,k+1,next⟩
  have grown : (t.records.insert id r).size ≤ t.records.size+1 := Std.TreeMap.size_insert_le
  exact Nat.le_trans grown room

theorem sound_use (sound : Sound t) (a : Use) : Sound (t.use a).2 := by
  cases a with
  | release id => exact sound_release sound id
  | reserve r =>
    simp only [use]
    split
    · rename_i taken
      exact sound_reserve sound taken
    · exact sound

theorem sound_uses (sound : Sound t) (as : List Use) : Sound (t.uses as).2 := by
  induction as generalizing t with
  | nil => exact sound
  | cons a as ih => exact ih (sound_use sound a)

-- What happens from a table `t` on, whose cursor was at move `start`: the ids in use, and
-- the ids that the cursor has passed, were in use in `t` or have been given out since.
structure Swept (t : TransactionTable) (start : Nat) (given : List UInt16) (u : TransactionTable) : Prop where
  maxId : u.maxId = t.maxId
  used : ∀ id, u.contains id → t.contains id ∨ id ∈ given
  passed : ∃ n, start ≤ n ∧ u.next = t.idAt n ∧ ∀ j, start ≤ j → j < n → t.contains (t.idAt j) ∨ t.idAt j ∈ given

theorem swept_start (cursorAt : t.next = t.idAt start) : Swept t start [] t :=
  ⟨rfl,fun _ used => .inl used,start,Nat.le_refl _,cursorAt,fun j low high => by omega⟩

theorem reserve?_used (taken : u.reserve? r = some (id,v)) {other : UInt16} (used : v.contains other) :
    u.contains other ∨ other = id := by
  rw [contains_get?,reserve?_get? taken] at used
  split at used
  · rename_i same
    exact .inr same.symm
  · exact .inl (by rwa [contains_get?])

theorem swept_reserve {given : List UInt16} (swept : Swept t start given u) (spare : u.capacity < u.maxId.toNat)
    (taken : u.reserve? r = some (id,v)) : Swept t start (given ++ [id]) v := by
  obtain ⟨maxId,used,n,low,next,passed⟩ := swept
  have same (j : Nat) : u.idAt j = t.idAt j := by simp only [idAt,maxId]
  obtain ⟨k,later,there,next',skipped⟩ := reserve?_idAt spare (next.trans (same n).symm) taken
  have kept : ∀ other, u.contains other → t.contains other ∨ other ∈ given ++ [id] := by
    intro other held
    rcases used other held with before | since
    · exact .inl before
    · exact .inr (List.mem_append_left _ since)
  refine ⟨?_,?_,k+1,by omega,next'.trans (same _),?_⟩
  · rw [(reserve?_some taken).2.2]
    exact maxId
  · intro other held
    rcases reserve?_used taken held with before | rfl
    · exact kept other before
    · exact .inr (by simp)
  · -- what the cursor passed before, what this search skipped, and what it found
    intro j low high
    rcases Nat.lt_or_ge j n with early | late
    · exact (passed j low early).imp_right (List.mem_append_left _)
    · rcases Nat.lt_or_ge j k with skip | found
      · rw [← same j]
        exact kept _ (skipped j late skip)
      · rw [show j = k by omega,← same k,← there]
        exact .inr (by simp)

theorem swept_release {given : List UInt16} (swept : Swept t start given u) (id : UInt16) :
    Swept t start given (u.release id) := by
  refine ⟨swept.maxId,?_,swept.passed⟩
  intro other held
  apply swept.used other
  rw [contains_get?,get?_release] at held
  split at held
  · cases held
  · rwa [contains_get?]

theorem swept_uses {given : List UInt16} (swept : Swept t start given u) (sound : Sound u) (as : List Use) :
    Swept t start (given ++ (u.uses as).1) (u.uses as).2 := by
  induction as generalizing given u with
  | nil => simpa [uses] using swept
  | cons a as ih =>
    have next := sound_use sound a
    have step : Swept t start (given ++ (u.use a).1.toList) (u.use a).2 := by
      cases a with
      | release id => simpa [use] using swept_release swept id
      | reserve r =>
        cases taken : u.reserve? r with
        | none => simpa [use,taken] using swept
        | some found => simpa [use,taken] using swept_reserve swept sound.spare taken
    simpa [uses] using ih step next

theorem uses_split {as : List Use} {before after : List UInt16} (given : (t.uses as).1 = before ++ id::after) :
    ∃ first r rest u, (t.uses first).1 = before ∧ (t.uses first).2.reserve? r = some (id,u) ∧ (u.uses rest).1 = after := by
  induction as generalizing t before with
  | nil => simp [uses] at given
  | cons a as ih =>
    simp only [uses] at given
    cases out : (t.use a).1 with
    | none =>
      rw [out] at given
      obtain ⟨first,r,rest,u,early,taken,late⟩ := ih given
      exact ⟨a::first,r,rest,u,by simp [uses,out,early],taken,late⟩
    | some x =>
      rw [out] at given
      cases before with
      | cons y before =>
        simp only [Option.toList_some,List.cons_append,List.nil_append,List.cons.injEq] at given
        obtain ⟨rfl,given⟩ := given
        obtain ⟨first,r,rest,u,early,taken,late⟩ := ih given
        exact ⟨a::first,r,rest,u,by simp [uses,out,early],taken,late⟩
      | nil =>
        simp only [Option.toList_some,List.cons_append,List.nil_append,List.cons.injEq] at given
        obtain ⟨rfl,given⟩ := given
        cases a with
        | release id => cases out
        | reserve r =>
          cases taken : t.reserve? r with
          | none => simp [use,taken] at out
          | some found =>
            simp only [use,taken,Option.some.injEq] at out
            exact ⟨[],r,as,found.2,rfl,by rw [← out]; exact taken,by simpa [use,taken] using given⟩

-- A whole round of ids lies between two meetings of one id, all of them in use at the
-- first meeting or given out since.
theorem swept_round {given : List UInt16} (spare : t.capacity < t.maxId.toNat) (swept : Swept t (n+1) given u)
    (taken : u.reserve? r = some (t.idAt n,v)) (spare' : u.capacity < u.maxId.toNat) :
    ∀ j, j < t.maxId.toNat-1 → t.contains (t.idAt (n+1+j)) ∨ t.idAt (n+1+j) ∈ given := by
  obtain ⟨maxId,used,m,low,next,passed⟩ := swept
  have same (j : Nat) : u.idAt j = t.idAt j := by simp only [idAt,maxId]
  obtain ⟨k,later,there,_,skipped⟩ := reserve?_idAt spare' (next.trans (same m).symm) taken
  have round : n+t.maxId.toNat ≤ k := by
    have turns := idAt_inj spare (there.trans (same k))
    have whole : t.maxId.toNat ∣ k-n := Nat.dvd_of_mod_eq_zero (Nat.sub_mod_eq_zero_of_mod_eq turns.symm)
    have := Nat.le_of_dvd (by omega) whole
    omega
  intro j below
  rcases Nat.lt_or_ge (n+1+j) m with early | late
  · exact passed _ (by omega) early
  · rw [← same]
    exact used _ (skipped _ late (by omega))

theorem uses_size (t : TransactionTable) (as : List Use) :
    (t.uses as).2.capacity = t.capacity ∧ (t.uses as).2.maxId = t.maxId := by
  induction as generalizing t with
  | nil => exact ⟨rfl,rfl⟩
  | cons a as ih =>
    have one : (t.use a).2.capacity = t.capacity ∧ (t.use a).2.maxId = t.maxId := by
      cases a with
      | release id => exact ⟨rfl,rfl⟩
      | reserve r =>
        cases taken : t.reserve? r with
        | none => simp [use,taken]
        | some found =>
          obtain ⟨id,u⟩ := found
          have whole := (reserve?_some taken).2.2
          simp [use,taken,whole]
    exact ⟨(ih _).1.trans one.1,(ih _).2.trans one.2⟩

theorem round_length {round given : List UInt16} (distinct : round.Nodup) (held : t.contains id)
    (among : ∀ x ∈ round, x ≠ id ∧ (t.contains x ∨ x ∈ given)) :
    round.length < t.len+(given.filter (· ≠ id)).length := by
  have inside : round ⊆ t.live.erase id ++ given.filter (· ≠ id) := by
    intro x member
    obtain ⟨other,used | since⟩ := among x member
    · exact List.mem_append_left _ ((List.mem_erase_of_ne other).mpr (Std.TreeMap.mem_keys.mpr used))
    · exact List.mem_append_right _ (List.mem_filter.mpr ⟨since,by simpa using other⟩)
  have bound := (distinct.subperm inside).length_le
  have present : id ∈ t.live := Std.TreeMap.mem_keys.mpr held
  have size : t.live.length = t.len := Std.TreeMap.length_keys
  have nonempty := List.length_pos_of_mem present
  rw [List.length_append,List.length_erase_of_mem present,size] at bound
  omega

theorem reuse_distance (capacity : Nat) (maxId : UInt16) (as : List Use) {before between after : List UInt16}
    (given : ((empty capacity maxId).uses as).1 = before ++ id::(between ++ id::after)) :
    (empty capacity maxId).maxId.toNat-(empty capacity maxId).capacity ≤ (between.filter (· ≠ id)).length := by
  obtain ⟨first,r,rest,u,_,taken,late⟩ := uses_split given
  obtain ⟨middle,r',_,v,out,again,_⟩ := uses_split late
  have sound := sound_uses (sound_empty capacity maxId) first
  have sound' := sound_reserve sound taken
  obtain ⟨n,cursorAt⟩ := sound.cursor
  obtain ⟨k,_,there,next,_⟩ := reserve?_idAt sound.spare cursorAt taken
  have size := uses_size (empty capacity maxId) first
  have kept := (reserve?_some taken).2.2
  have same (j : Nat) : u.idAt j = ((empty capacity maxId).uses first).2.idAt j := by simp only [idAt,kept]
  have swept : Swept u (k+1) between (u.uses middle).2 := by
    simpa [out] using swept_uses (swept_start (next.trans (same _).symm)) sound' middle
  have again' : (u.uses middle).2.reserve? r' = some (u.idAt k,v) := by rw [same,← there]; exact again
  have round := swept_round sound'.spare swept again' (sound_uses sound' middle).spare
  have held : u.contains id := by rw [contains_get?,reserve?_get? taken]; simp
  have among : ∀ x ∈ (List.range (u.maxId.toNat-1)).map (fun j => u.idAt (k+1+j)),
      x ≠ id ∧ (u.contains x ∨ x ∈ between) := by
    intro x member
    obtain ⟨j,below,rfl⟩ := List.mem_map.mp member
    rw [List.mem_range] at below
    refine ⟨?_,round j below⟩
    intro met
    rw [there,← same] at met
    have turns : k+(1+j) ≡ k+0 [MOD u.maxId.toNat] := by
      rw [← Nat.add_assoc]
      exact idAt_inj sound'.spare met
    have := (Nat.ModEq.add_left_cancel' k turns).eq_of_lt_of_lt (by omega) (by omega)
    omega
  have counted := round_length (Numbering.nodup_round (Nat.sub_le _ _)) held among
  rw [List.length_map,List.length_range] at counted
  have within := sound'.within
  rw [← size.1,← size.2]
  rw [kept] at counted within
  dsimp only at counted within
  omega

-- Two slots, five ids, and the second one held all the time: the bound is met.
def turnover : List Use :=
  let take : Use := .reserve ⟨0,.readCoils,⟨.serial,1⟩⟩
  take::take::[1,3,4,5,1,3,4,5].flatMap fun id => [.release id,take]

theorem reuse_distance_turnover : ((empty 2 5).uses turnover).1 = [1,2,3,4,5] ++ 1::([3,4,5] ++ 1::[]) ∧
    (empty 2 5).maxId.toNat-(empty 2 5).capacity ≤ (([3,4,5] : List UInt16).filter (· ≠ 1)).length :=
  have given : ((empty 2 5).uses turnover).1 = [1,2,3,4,5] ++ 1::([3,4,5] ++ 1::[]) := by decide
  ⟨given,reuse_distance 2 5 turnover given⟩

end ModbusMaster.TransactionTable
