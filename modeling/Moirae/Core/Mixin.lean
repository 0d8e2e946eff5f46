import Mathlib.Data.List.Induction
import Moirae.Collections.KeyedMap

/-! Mixins: `applyMixins` copies what the prototypes of the mixin classes own
onto its target. -/
namespace Moirae

/-- What a property holds. `constructor` of a prototype holds its class; every
other own property of a prototype is a method, known by the class that declares
it. Both are functions with a name. -/
inductive Member
  | class (name : String)
  | method (owner name : String)
  deriving DecidableEq, Repr

def Member.name : Member → String
  | .class name => name
  | .method _ name => name

/-- The metadata of an object: its own, and what its prototypes have. -/
structure Metadata where
  own : KeyedMap String String
  inherited : KeyedMap String String

namespace Metadata

def empty : Metadata := ⟨.empty, .empty⟩

def getMetadata (metadata : Metadata) (key : String) : Option String :=
  metadata.own.get key <|> metadata.inherited.get key

/-- The own keys come first. -/
def getMetadataKeys (metadata : Metadata) : List String :=
  metadata.own.entries.map Prod.fst ++
    (metadata.inherited.entries.map Prod.fst).filter fun key => !metadata.own.has key

def defineMetadata (metadata : Metadata) (key value : String) : Metadata :=
  { metadata with own := metadata.own.set key value }

/-- The value of each of the keys, added to the map. -/
def collect (metadata : Metadata) (metadataMap : KeyedMap String String)
    (keys : List String) : KeyedMap String String :=
  keys.foldl (fun metadataMap key =>
    match metadata.getMetadata key with
    | none => metadataMap
    | some value => metadataMap.set key value) metadataMap

theorem mem_getMetadataKeys {metadata : Metadata} {key : String} :
    key ∈ metadata.getMetadataKeys ↔ (metadata.getMetadata key).isSome := by
  rw [getMetadataKeys, List.mem_append, List.mem_filter, KeyedMap.mem_keys_iff,
    KeyedMap.mem_keys_iff, KeyedMap.has, KeyedMap.has, getMetadata]
  cases metadata.own.get key <;> simp

/-- A key that is collected has the value it has there. -/
theorem get_collect (metadata : Metadata) (metadataMap : KeyedMap String String)
    (keys : List String) (key : String) :
    (metadata.collect metadataMap keys).get key =
      if key ∈ keys then (metadata.getMetadata key).or (metadataMap.get key)
      else metadataMap.get key := by
  rw [collect]
  induction keys generalizing metadataMap with
  | nil => rfl
  | cons first keys ih =>
      rw [List.foldl_cons, ih]
      cases hFirst : metadata.getMetadata first with
      | none =>
          by_cases hKey : key = first
          · subst hKey
            simp [hFirst]
          · simp [hKey]
      | some value =>
          by_cases hKey : key = first
          · subst hKey
            simp [hFirst]
          · simp [hKey, KeyedMap.get_set]

/-- All entries of a map become metadata of the object itself. -/
theorem getMetadata_foldl_defineMetadata (metadata : Metadata) (m : KeyedMap String String)
    (key : String) :
    (m.entries.foldl (fun metadata entry => metadata.defineMetadata entry.1 entry.2)
      metadata).getMetadata key = (m.get key).or (metadata.getMetadata key) := by
  have hFold : ∀ (entries : List (String × String)) (metadata : Metadata),
      entries.foldl (fun metadata entry => metadata.defineMetadata entry.1 entry.2) metadata =
        { metadata with
          own := entries.foldl (fun own entry => own.set entry.1 entry.2) metadata.own } := by
    intro entries
    induction entries with
    | nil => exact fun _ => rfl
    | cons entry entries ih => exact fun metadata => ih _
  rw [hFold, getMetadata, KeyedMap.get_foldl_set _ m.distinct, getMetadata]
  change ((m.get key).or _ <|> _) = _
  cases m.get key <;> rfl

end Metadata

/-- A mixin class: the methods of its prototype and the metadata found there. -/
structure MixinClass where
  name : String
  methods : KeyedMap String Member
  metadata : Metadata
  methods_ne_constructor : methods.get "constructor" = none

/-- The own properties of the prototype, in the order of
`Object.getOwnPropertyNames`. -/
def MixinClass.prototype (baseCtor : MixinClass) : List (String × Member) :=
  ("constructor", .class baseCtor.name) :: baseCtor.methods.entries

/-- The object that mixins are applied to. -/
structure MixinTarget where
  properties : KeyedMap String Member
  metadata : Metadata

namespace MixinTarget

/-- A fresh instance: none of its own properties is a method. -/
def fresh (metadata : Metadata) : MixinTarget := ⟨.empty, metadata⟩

def defineProperty (target : MixinTarget) (property : String × Member) : MixinTarget :=
  { target with properties := target.properties.set property.1 property.2 }

/-- The metadata of the target is kept, that of the mixin fills in what is
missing, and all of it becomes the target's own. -/
def mergeMetadata (target : MixinTarget) (mixinMetadata : Metadata) : MixinTarget :=
  let metadataMap := target.metadata.collect .empty target.metadata.getMetadataKeys
  let missing := mixinMetadata.getMetadataKeys.filter fun key => !metadataMap.has key
  let merged := mixinMetadata.collect metadataMap missing
  { target with
    metadata := merged.entries.foldl
      (fun metadata entry => metadata.defineMetadata entry.1 entry.2) target.metadata }

def applyMixin (target : MixinTarget) (baseCtor : MixinClass) : MixinTarget :=
  baseCtor.prototype.foldl (fun target property =>
    (target.defineProperty property).mergeMetadata baseCtor.metadata) target

def applyMixins (target : MixinTarget) (mixins : List MixinClass) : MixinTarget :=
  mixins.foldl applyMixin target

/-- `this.constructor.name` on an instance of the class with this name: an own
property `constructor` hides that of the prototype. -/
def constructorName (className : String) (target : MixinTarget) : String :=
  match target.properties.get "constructor" with
  | none => className
  | some member => member.name

/-- The metadata of the target goes before that of the mixin. -/
theorem getMetadata_mergeMetadata (target : MixinTarget) (metadata : Metadata) (key : String) :
    (target.mergeMetadata metadata).metadata.getMetadata key =
      (target.metadata.getMetadata key).or (metadata.getMetadata key) := by
  rw [mergeMetadata, Metadata.getMetadata_foldl_defineMetadata, Metadata.get_collect,
    Metadata.get_collect]
  simp only [List.mem_filter, KeyedMap.has, Metadata.get_collect, Metadata.mem_getMetadataKeys,
    KeyedMap.get_empty, Option.or_none]
  cases target.metadata.getMetadata key <;> cases metadata.getMetadata key <;> simp

/-- Merging the same metadata again changes nothing that can be read. -/
theorem getMetadata_foldl {metadata : Metadata} {key : String} {before : Option String}
    (properties : List (String × Member)) {target : MixinTarget}
    (h : target.metadata.getMetadata key = before.or (metadata.getMetadata key)) :
    (properties.foldl (fun target property =>
      (target.defineProperty property).mergeMetadata metadata) target).metadata.getMetadata key =
        before.or (metadata.getMetadata key) := by
  induction properties generalizing target with
  | nil => exact h
  | cons property properties ih =>
      refine ih ?_
      rw [getMetadata_mergeMetadata]
      change (target.metadata.getMetadata key).or _ = _
      rw [h, Option.or_assoc, Option.or_self]

theorem getMetadata_applyMixin (target : MixinTarget) (baseCtor : MixinClass) (key : String) :
    (target.applyMixin baseCtor).metadata.getMetadata key =
      (target.metadata.getMetadata key).or (baseCtor.metadata.getMetadata key) :=
  getMetadata_foldl baseCtor.methods.entries (getMetadata_mergeMetadata _ _ key)

/-- Metadata of the target wins over that of all mixins, and among these that of
the first. -/
theorem getMetadata_applyMixins (target : MixinTarget) (mixins : List MixinClass) (key : String) :
    (target.applyMixins mixins).metadata.getMetadata key =
      (target.metadata.getMetadata key).or
        (mixins.findSome? (·.metadata.getMetadata key)) := by
  induction mixins generalizing target with
  | nil => exact Option.or_none.symm
  | cons baseCtor mixins ih =>
      change ((target.applyMixin baseCtor).applyMixins mixins).metadata.getMetadata key = _
      rw [ih, getMetadata_applyMixin, Option.or_assoc, List.findSome?_cons]
      cases baseCtor.metadata.getMetadata key <;> rfl

theorem properties_foldl (metadata : Metadata) (properties : List (String × Member))
    (target : MixinTarget) :
    (properties.foldl (fun target property =>
      (target.defineProperty property).mergeMetadata metadata) target).properties =
        properties.foldl (fun own property => own.set property.1 property.2)
          target.properties := by
  induction properties generalizing target with
  | nil => rfl
  | cons property properties ih => exact ih _

theorem get_properties_applyMixin (target : MixinTarget) (baseCtor : MixinClass)
    (name : String) :
    (target.applyMixin baseCtor).properties.get name =
      (baseCtor.prototype.lookup name).or (target.properties.get name) := by
  have hDistinct : (baseCtor.prototype.map Prod.fst).Nodup :=
    List.nodup_cons.mpr ⟨KeyedMap.not_mem_keys_of_get_none baseCtor.methods_ne_constructor,
      baseCtor.methods.distinct⟩
  rw [applyMixin, properties_foldl, KeyedMap.get_foldl_set _ hDistinct]

/-- Methods of a mixin win over those of the mixins before it. -/
theorem get_properties_applyMixins (target : MixinTarget) (mixins : List MixinClass)
    (name : String) :
    (target.applyMixins mixins).properties.get name =
      (mixins.reverse.findSome? (·.prototype.lookup name)).or (target.properties.get name) := by
  induction mixins using List.reverseRecOn with
  | nil => rfl
  | append_singleton mixins baseCtor ih =>
      rw [applyMixins, List.foldl_append, List.reverse_append]
      change ((target.applyMixins mixins).applyMixin baseCtor).properties.get name = _
      rw [get_properties_applyMixin, ih, ← Option.or_assoc]
      cases hOwn : baseCtor.prototype.lookup name <;> simp [hOwn]

/-- Copying properties other than `constructor` leaves that one alone. -/
theorem get_constructor_foldl (metadata : Metadata) {properties : List (String × Member)}
    (hNames : "constructor" ∉ properties.map Prod.fst) (target : MixinTarget) :
    (properties.foldl (fun target property =>
      (target.defineProperty property).mergeMetadata metadata) target).properties.get
        "constructor" = target.properties.get "constructor" := by
  induction properties generalizing target with
  | nil => rfl
  | cons property properties ih =>
      rw [List.map_cons, List.mem_cons, not_or] at hNames
      rw [List.foldl_cons, ih hNames.2]
      exact KeyedMap.get_set_ne _ hNames.1 _

/-- A mixin puts its own class in the place of the constructor. -/
theorem get_constructor_applyMixin (target : MixinTarget) (baseCtor : MixinClass) :
    (target.applyMixin baseCtor).properties.get "constructor" = some (.class baseCtor.name) := by
  have hMethods := KeyedMap.not_mem_keys_of_get_none baseCtor.methods_ne_constructor
  rw [applyMixin, MixinClass.prototype, List.foldl_cons,
    get_constructor_foldl baseCtor.metadata hMethods]
  exact KeyedMap.get_set_self _ _ _

/-- The constructor an instance shows is that of the last mixin applied to it. -/
theorem constructorName_applyMixins (className : String) (target : MixinTarget)
    (mixins : List MixinClass) :
    constructorName className (target.applyMixins mixins) =
      match mixins.getLast? with
      | none => constructorName className target
      | some baseCtor => baseCtor.name := by
  induction mixins using List.reverseRecOn with
  | nil => rfl
  | append_singleton mixins baseCtor ih =>
      rw [applyMixins, List.foldl_append, List.getLast?_append]
      simp [constructorName, get_constructor_applyMixin, Member.name]

end MixinTarget

end Moirae
