import RandomArt.FallibleFold
import RandomArt.PlainObject
import RandomArt.RegionMapLookup

/-!
# Names and CIDs of region maps

Each map of a request is kept under its name and under its CID, in one table, and so are the
maps that only a task refers to. A text that is the name of one map and the CID of another has
one place in the table, and the entry that comes last takes it.
-/

namespace RandomArt.RegionMapLookup

open PaintGeometry FallibleFold

variable {Coord : Type} (regionMapRepo : Repository Coord)

def Loaded (resolved : ResolvedRegionMap) : Prop :=
  ∃ regionMap, regionMapRepo resolved.cidRef.regionMapCID = .ok regionMap ∧
    resolved.geometry = geometryOf regionMap

def AllLoaded (maps : ResolvedMaps) : Prop :=
  ∀ key resolved, maps key = some resolved → Loaded regionMapRepo resolved

variable {regionMapRepo} in
theorem AllLoaded.set {maps : ResolvedMaps} (h : AllLoaded regionMapRepo maps)
    {resolved : ResolvedRegionMap} (hresolved : Loaded regionMapRepo resolved) (key : String) :
    AllLoaded regionMapRepo (maps.set key resolved) := by
  intro key' resolved' hmaps
  rw [ResolvedMaps.set, Function.update_apply] at hmaps
  split_ifs at hmaps
  · cases hmaps
    exact hresolved
  · exact h key' resolved' hmaps

section Catalog

/-- The CID of the last entry that has the key as its name or as its CID. -/
def lastMention : List (String × String) → String → Option String
  | [], _ => none
  | entry :: rest, key =>
    (lastMention rest key).or (if entry.1 = key ∨ entry.2 = key then some entry.2 else none)

/-- The CID of the map that a key finds. -/
def ResolvedMaps.cidAt (maps : ResolvedMaps) (key : String) : Option String :=
  (maps key).map (·.cidRef.regionMapCID)

end Catalog

section Tasks

/-- What a task refers to. -/
inductive RefTarget where
  | name (name : String)
  | cid (cid : String)
  | nothing

def target (ref : PlotDataRef) : RefTarget :=
  if ref.isRefByName then .name (ref.regionMapName.getD "")
  else
    match ref.regionMapCID with
    | some cid => .cid cid
    | none => .nothing

/-- The maps known before a task: those of the catalog, and those of the CIDs of earlier tasks. -/
structure Known (catalog : PlainObject String) (earlier : List String) (maps : ResolvedMaps) :
    Prop where
  cids : ∀ key, maps.cidAt key =
    (lastMention catalog.entries key).or (if key ∈ earlier then some key else none)
  loaded : AllLoaded regionMapRepo maps

variable (catalog : PlainObject String)

variable {catalog regionMapRepo}

/-- A task that refers to a CID makes it known, under that CID unless the catalog mentions it. -/
theorem Known.append {earlier : List String} {maps maps' : ResolvedMaps} {cid : String}
    (hknown : Known regionMapRepo catalog earlier maps) (hloaded : AllLoaded regionMapRepo maps')
    (hcid : maps'.cidAt cid = (lastMention catalog.entries cid).or (some cid))
    (hothers : ∀ key, key ≠ cid → maps'.cidAt key = maps.cidAt key) :
    Known regionMapRepo catalog (earlier ++ [cid]) maps' := by
  refine ⟨fun key => ?_, hloaded⟩
  by_cases hkey : key = cid
  · rw [hkey, hcid, if_pos (List.mem_append_right _ List.mem_cons_self)]
  · rw [hothers key hkey, hknown.cids key]
    simp [hkey]

variable (regionMapRepo catalog)

end Tasks

section Requests

variable (catalog : PlainObject String) (refs : List PlotDataRef)

end Requests

end RandomArt.RegionMapLookup
