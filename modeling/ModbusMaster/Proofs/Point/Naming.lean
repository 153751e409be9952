import Mathlib.Data.List.TakeWhile
import ModbusMaster.Proofs.Gateway
namespace ModbusMaster

-- The point that an intent reaches: the one whose key is the intent's, which need not be
-- one that the intent names. Names and keys agree as far as slashes can be told apart.

namespace Text

theorem cutAt_some {sep : Char} {s front back : List Char} (cut : cutAt sep s = some (front,back)) :
    s = front ++ sep::back ∧ sep ∉ front := by
  unfold cutAt at cut
  split at cut
  · rename_i c after dropped
    cases Option.some.inj cut
    have whole := List.takeWhile_append_dropWhile (p:=(· != sep)) (l:=s)
    have head : c = sep := by
      have := List.head?_dropWhile_not (· != sep) s
      simpa [dropped] using this
    refine ⟨?_,fun member => ?_⟩
    · rw [dropped,head] at whole
      exact whole.symm
    · simpa using List.mem_takeWhile_imp member
  · cases cut

theorem cut_unique {sep : Char} {a b x y : List Char} (same : a ++ sep::x = b ++ sep::y)
    (count : a.count sep = b.count sep) : a = b ∧ x = y := by
  induction a generalizing b with
  | nil =>
    cases b with
    | nil => exact ⟨rfl,(List.cons.inj same).2⟩
    | cons d b =>
      cases (List.cons.inj same).1
      simp at count
  | cons c a ih =>
    cases b with
    | nil =>
      cases (List.cons.inj same).1
      simp at count
    | cons d b =>
      obtain ⟨head,tail⟩ := List.cons.inj same
      subst head
      have count : a.count sep = b.count sep := by
        by_cases here : c = sep <;> simpa [List.count_cons,here] using count
      obtain ⟨front,back⟩ := ih tail count
      exact ⟨congrArg (c::·) front,back⟩

end Text

def slashes (s : String) : Nat := s.toList.count '/'

theorem joined_inj {w d m w' d' m' : String} (same : w ++ "/" ++ d ++ "/" ++ m = w' ++ "/" ++ d' ++ "/" ++ m')
    (wellheads : slashes w = slashes w') (devices : slashes d = slashes d') : w = w' ∧ d = d' ∧ m = m' := by
  have spelled (w d m : String) : (w ++ "/" ++ d ++ "/" ++ m).toList =
      w.toList ++ '/'::(d.toList ++ '/'::m.toList) := by
    simp
  have same := congrArg String.toList same
  rw [spelled,spelled] at same
  obtain ⟨front,back⟩ := Text.cut_unique same wellheads
  obtain ⟨middle,rest⟩ := Text.cut_unique back devices
  exact ⟨String.toList_injective front,String.toList_injective middle,String.toList_injective rest⟩

def Segment (topic d : String) : Prop :=
  ∃ before rest, topic.toList = before ++ '/'::(d.toList ++ rest) ∧ '/' ∉ before ∧ slashes d = 0 ∧
    ∀ c ∈ rest.head?, c = '/'

namespace Segment
variable {topic d e : String}

theorem taken {rest : List Char} (plain : slashes d = 0) (ends : ∀ c ∈ rest.head?, c = '/') :
    (d.toList ++ rest).takeWhile (· != '/') = d.toList := by
  have all : ∀ c ∈ d.toList, (c != '/') = true := fun c member =>
    bne_iff_ne.mpr fun slash => List.count_eq_zero.mp plain (slash ▸ member)
  rw [List.takeWhile_append_of_pos all]
  cases rest with
  | nil => simp
  | cons c rest => simp [ends c rfl]

theorem unique (left : Segment topic d) (right : Segment topic e) : d = e := by
  obtain ⟨before,rest,cut,first,plain,ends⟩ := left
  obtain ⟨before',rest',cut',first',plain',ends'⟩ := right
  have counts : before.count '/' = before'.count '/' := by
    rw [List.count_eq_zero_of_not_mem first,List.count_eq_zero_of_not_mem first']
  obtain ⟨_,tail⟩ := Text.cut_unique (cut.symm.trans cut') counts
  apply String.toList_injective
  exact (taken plain ends).symm.trans ((congrArg _ tail).trans (taken plain' ends'))

end Segment

namespace Intent
variable {i : Intent} {p q : Point} {d k : String}

structure Names (i : Intent) (p : Point) : Prop where
  wellhead : p.wellhead = i.wellhead
  device : Segment i.topic p.device
  metric : p.metric = i.command

theorem device_segment (told : i.device = .ok d) : Segment i.topic d := by
  unfold device at told
  split at told
  · cases told
  · rename_i before tail cut
    dsimp only at told
    split at told
    · cases told
    · cases Except.ok.inj told
      obtain ⟨whole,first⟩ := Text.cutAt_some cut
      have parts := List.takeWhile_append_dropWhile (p:=(· != '/')) (l:=tail)
      refine ⟨before,tail.dropWhile (· != '/'),?_,first,?_,?_⟩
      · rw [String.toList_ofList,parts]
        exact whole
      · apply List.count_eq_zero_of_not_mem
        intro member
        rw [String.toList_ofList] at member
        simpa using List.mem_takeWhile_imp member
      · intro c head
        have := List.head?_dropWhile_not (· != '/') tail
        rw [Option.mem_def.mp head] at this
        simpa using this

theorem key_joined (keyed : i.key = .ok k) :
    ∃ d, Segment i.topic d ∧ k = i.wellhead ++ "/" ++ d ++ "/" ++ i.command := by
  unfold key at keyed
  cases told : i.device with
  | error refusal =>
    rw [told] at keyed
    cases keyed
  | ok d =>
    rw [told] at keyed
    exact ⟨d,device_segment told,(Except.ok.inj keyed).symm⟩

theorem Names.key (names : i.Names q) (keyed : i.key = .ok k) : q.key = k := by
  obtain ⟨d,segment,rfl⟩ := key_joined keyed
  have device := names.device.unique segment
  unfold Point.key
  rw [names.wellhead,device,names.metric]

-- A point with the key of an intent is named by it exactly if its names have the slashes
-- that the intent's have.
theorem names_iff (keyed : i.key = .ok p.key) :
    i.Names p ↔ slashes p.wellhead = slashes i.wellhead ∧ slashes p.device = 0 := by
  obtain ⟨d,segment,same⟩ := key_joined keyed
  obtain ⟨_,_,_,_,plain,_⟩ := id segment
  constructor
  · intro names
    exact ⟨congrArg slashes names.wellhead,names.device.unique segment ▸ plain⟩
  · intro ⟨wellheads,devices⟩
    obtain ⟨wellhead,device,metric⟩ := joined_inj same wellheads (devices.trans plain.symm)
    exact ⟨wellhead,device ▸ segment,metric⟩

structure Reaches (i : Intent) (ps : List Point) (p : Point) : Prop where
  listed : p ∈ ps
  keyed : i.key = .ok p.key
  alone : ∀ q ∈ ps, q.key = p.key → q = p
  -- no other point of the list is named
  named : ∀ q ∈ ps, i.Names q → q = p
  -- and this one is, unless slashes hide where one name ends and the next begins
  exact : i.Names p ↔ slashes p.wellhead = slashes i.wellhead ∧ slashes p.device = 0

end Intent

namespace Catalog
variable {c d : Catalog} {p : Point} {ps : List Point} {k : String}

theorem add_lookup (added : c.add p = .ok d) :
    c.lookup? p.key = none ∧ ∀ k, d.lookup? k = if p.key = k then some p else c.lookup? k := by
  unfold add at added
  split at added
  · cases added
  · rename_i fresh
    cases Except.ok.inj added
    refine ⟨Std.TreeMap.getElem?_eq_none_of_contains_eq_false (Bool.eq_false_iff.mpr fresh),fun k => ?_⟩
    unfold lookup?
    rw [Std.TreeMap.getElem?_insert]
    simp only [Std.LawfulEqCmp.compare_eq_iff_eq]

theorem addAll_lookup (added : ps.foldlM add c = .ok d) (k : String) (p : Point) :
    d.lookup? k = some p ↔ c.lookup? k = some p ∨ (p ∈ ps ∧ p.key = k) := by
  induction ps generalizing c with
  | nil =>
    cases Except.ok.inj added
    simp
  | cons q ps ih =>
    cases first : c.add q with
    | error fault =>
      rw [List.foldlM_cons,first] at added
      cases added
    | ok next =>
      rw [List.foldlM_cons,first] at added
      obtain ⟨fresh,found⟩ := add_lookup first
      rw [ih added,found k]
      by_cases here : q.key = k
      · subst here
        simp only [if_pos,fresh,Option.some.injEq,reduceCtorEq,false_or,List.mem_cons]
        constructor
        · rintro (rfl | ⟨member,keyed⟩)
          · exact ⟨.inl rfl,rfl⟩
          · exact ⟨.inr member,keyed⟩
        · rintro ⟨rfl | member,keyed⟩
          · exact .inl rfl
          · exact .inr ⟨member,keyed⟩
      · have other (keyed : p.key = k) : p ≠ q := fun same => here (same ▸ keyed)
        simp only [if_neg here,List.mem_cons]
        constructor
        · rintro (old | ⟨member,keyed⟩)
          · exact .inl old
          · exact .inr ⟨.inr member,keyed⟩
        · rintro (old | ⟨same | member,keyed⟩)
          · exact .inl old
          · exact absurd same (other keyed)
          · exact .inr ⟨member,keyed⟩

theorem ofPoints_lookup (listed : ofPoints ps = .ok d) (k : String) (p : Point) :
    d.lookup? k = some p ↔ p ∈ ps ∧ p.key = k := by
  have empty : (⟨{}⟩ : Catalog).lookup? k = none := Std.TreeMap.getElem?_emptyc
  rw [addAll_lookup listed k p,empty]
  simp

end Catalog

namespace Intent
variable {i : Intent} {p : Point} {ps : List Point} {d : Catalog}

theorem lookup_reaches {k : String} (listed : Catalog.ofPoints ps = .ok d) (keyed : i.key = .ok k)
    (found : d.lookup? k = some p) : i.Reaches ps p := by
  have search := Catalog.ofPoints_lookup listed k
  obtain ⟨member,rfl⟩ := (search p).mp found
  have alone : ∀ q ∈ ps, q.key = p.key → q = p := fun q member same =>
    Option.some.inj (((search q).mpr ⟨member,same⟩).symm.trans found)
  exact ⟨member,keyed,alone,fun q member names => alone q member (names.key keyed),names_iff keyed⟩

end Intent

namespace Station
variable {s : Station} {i : Intent} {p : Point} {device : DeviceAddress} {op : Option WriteValue} {raw : String}

theorem resolve_found (resolved : s.resolve raw = .ok (i,p,device,op)) :
    Intent.parse raw = .ok i ∧ p.deviceAddress s.engine.format = .ok device ∧
      ∃ k, i.key = .ok k ∧ s.catalog.lookup? k = some p := by
  unfold resolve at resolved
  obtain ⟨intent,parsed,resolved⟩ := Fault.bind_ok resolved
  obtain ⟨k,keyed,resolved⟩ := Fault.bind_ok resolved
  dsimp only at resolved
  split at resolved
  · rename_i point found
    obtain ⟨_,same,resolved⟩ := Fault.bind_ok resolved
    cases same
    obtain ⟨address,addressed,resolved⟩ := Fault.bind_ok resolved
    have taken : ∃ value : Option WriteValue, (intent,point,address,value) = (i,p,device,op) := by
      split at resolved
      · obtain ⟨value,_,resolved⟩ := Fault.bind_ok resolved
        exact ⟨value,Except.ok.inj resolved⟩
      · exact ⟨none,Except.ok.inj resolved⟩
    obtain ⟨_,same⟩ := taken
    obtain ⟨rfl,rfl,rfl,_⟩ := same
    exact ⟨Fault.mapError_ok parsed,Fault.mapError_ok addressed,k,Fault.mapError_ok keyed,found⟩
  · cases resolved

end Station

namespace Gateway

-- Every intent that is carried out is carried out on the point that it reaches, and points
-- whose names have the same slashes are told apart by their keys.
theorem intents_reach_points {s : Station} {ps : List Point} (listed : Catalog.ofPoints ps = .ok s.catalog) :
    (∀ raw status, (s.handle raw).1 = .ok status → ∃ i p device op id, Intent.parse raw = .ok i ∧ i.Reaches ps p ∧
      p.deviceAddress s.engine.format = .ok device ∧
      (s.engine.call ⟨id,device,Station.onDemandPriority⟩ (Station.operationOf p op) (some .points)).1 = status ∧
      s.handles raw = s.issues (Station.requestOf i p op) ⟨id,device,Station.onDemandPriority⟩
        (Station.operationOf p op)) ∧
    ∀ p q : Point, p.key = q.key → slashes p.wellhead = slashes q.wellhead → slashes p.device = slashes q.device →
      p.wellhead = q.wellhead ∧ p.device = q.device ∧ p.metric = q.metric := by
  refine ⟨fun raw status done => ?_,fun p q => joined_inj⟩
  obtain ⟨i,p,device,op,id,resolved,called,handles⟩ := Station.handle_ok done
  obtain ⟨parsed,addressed,k,keyed,found⟩ := Station.resolve_found resolved
  exact ⟨i,p,device,op,id,parsed,Intent.lookup_reaches listed keyed found,addressed,called,handles⟩

def readPressure : String :=
  "\x7b\"app_seq\":\"1\",\"command\":\"pressure\",\"wellhead\":\"well\",\"version\":\"1\"," ++
    "\"sourcetopic\":\"read/pump\",\"timestamp\":\"t\",\"usec\":\"0\"\x7d"

def toPressure : Intent := ⟨"1","pressure",none,"well","1","read/pump","t","0"⟩

theorem intents_reach_points_serial : ∃ first, start serialSettings onePoint .rtu silentLine = .ok first ∧
    Catalog.ofPoints [pressure] = .ok first.catalog ∧ (first.handle readPressure).1 = .ok .success ∧
    Intent.parse readPressure = .ok toPressure ∧ toPressure.Reaches [pressure] pressure ∧
      toPressure.Names pressure := by
  have done : Intent.parse readPressure = .ok toPressure := Fault.toOption_ok (by decide +kernel)
  obtain ⟨first,started,listed,success⟩ : ∃ first, start serialSettings onePoint .rtu silentLine = .ok first ∧
      Catalog.ofPoints [pressure] = .ok first.catalog ∧ (first.handle readPressure).1 = .ok .success :=
    ⟨_,rfl,rfl,Fault.toOption_ok (by decide +kernel)⟩
  refine ⟨first,started,listed,success,done,?_⟩
  obtain ⟨i,p,_,_,_,parsed,reaches,_⟩ := (intents_reach_points listed).1 readPressure .success success
  obtain rfl := Except.ok.inj (done.symm.trans parsed)
  obtain rfl := List.mem_singleton.mp reaches.listed
  exact ⟨reaches,reaches.exact.mpr (by decide +kernel)⟩

-- The wellhead of the point ends where the intent says that its device begins.
def northern : Point := {pressure with wellhead:="well/north"}
def northernOnly : Catalog := ⟨Std.TreeMap.empty.insert northern.key northern⟩

def readNorth : String :=
  "\x7b\"app_seq\":\"1\",\"command\":\"pump/pressure\",\"wellhead\":\"well\",\"version\":\"1\"," ++
    "\"sourcetopic\":\"read/north\",\"timestamp\":\"t\",\"usec\":\"0\"\x7d"

def north : Intent := ⟨"1","pump/pressure",none,"well","1","read/north","t","0"⟩

theorem unnamed_point_reached : ∃ first, start serialSettings northernOnly .rtu silentLine = .ok first ∧
    Catalog.ofPoints [northern] = .ok first.catalog ∧ Intent.parse readNorth = .ok north ∧
    (first.handle readNorth).1 = .ok .success ∧
    ((first.handles readNorth).filterMap Happening.issue?).map (·.1) = [Station.requestOf north northern none] ∧
    ¬north.Names northern ∧ ∃ q : Point, q.key = northern.key ∧ q.wellhead ≠ northern.wellhead := by
  refine ⟨_,rfl,rfl,Fault.toOption_ok (by decide +kernel),Fault.toOption_ok (by decide +kernel),
    by decide +kernel,?_,
    {northern with wellhead:="well",device:="north/pump"},by decide +kernel⟩
  intro names
  exact absurd names.wellhead (by decide +kernel)

end Gateway
end ModbusMaster
