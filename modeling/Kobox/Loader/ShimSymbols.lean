import Kobox.Loader.Process

namespace Kobox.Loader

def shimStubSize : Nat := 48
def shimStubCount : Nat := 4096
def shimSymbolHashSize : Nat := 16384

/-- The flattened provider tables with their hash index, which stores index+1. -/
structure ShimCache where
  symbols : List ShimSymbol
  hashIndex : Nat → Nat
  overflow : Bool

def ShimCache.empty : ShimCache := ⟨[],fun _ => 0,false⟩

/-- FNV-1a over the bytes of the name, in 64 bits. -/
def shimSymbolNameHash (name : String) : Nat :=
  name.toList.foldl (fun hash c => (hash ^^^ c.toNat)*1099511628211%wordSize) 1469598103934665603

def shimSymbolSlot (name : String) : Nat := shimSymbolNameHash name%shimSymbolHashSize

def shimSymbolNamed (symbols : List ShimSymbol) (index : Nat) (name : String) : Bool :=
  (symbols[index]?.bind ShimSymbol.name)==some name

def hashInsertFrom (symbols : List ShimSymbol) (table : Nat → Nat) (name : String)
    (index slot : Nat) : Nat → (Nat → Nat)
  | 0 => table
  | probes+1 =>
    if table slot=0 then Function.update table slot (index+1)
    else if shimSymbolNamed symbols (table slot-1) name then table
    else hashInsertFrom symbols table name index ((slot+1)%shimSymbolHashSize) probes

def shimSymbolHashInsertFirst (symbols : List ShimSymbol) (table : Nat → Nat)
    (symbol : ShimSymbol) (index : Nat) : Nat → Nat :=
  match symbol.name with
  | none => table
  | some name =>
    if 0xffff ≤ index then table
    else hashInsertFrom symbols table name index (shimSymbolSlot name) shimSymbolHashSize

/-- One turn of `shim_symbol_append_provider`; a full cache only raises the overflow mark. -/
def shimSymbolAppend (c : ShimCache) (symbol : ShimSymbol) : ShimCache :=
  if shimStubCount ≤ c.symbols.length then { c with overflow := true }
  else
    let symbols := c.symbols++[symbol]
    { c with
      symbols := symbols
      hashIndex := shimSymbolHashInsertFirst symbols c.hashIndex symbol c.symbols.length }

def shimSymbolAppendProvider (c : ShimCache) (symbols : List ShimSymbol) : ShimCache :=
  symbols.foldl shimSymbolAppend c

/-- The cache `shim_symbol_table_init` builds once, in the order of the providers. -/
def shimSymbolTable (env : Env) : ShimCache :=
  (env.shimSymbols::env.subsystemSymbols++[env.kvmSymbols]).foldl shimSymbolAppendProvider
    ShimCache.empty

def shimSymbolCount (env : Env) : Nat :=
  if (shimSymbolTable env).overflow then shimStubCount+1 else (shimSymbolTable env).symbols.length

def shimSymbolAt (env : Env) (index : Nat) : Option ShimSymbol :=
  (shimSymbolTable env).symbols[index]?

def findIndexFrom (c : ShimCache) (name : String) (slot : Nat) : Nat → Option Nat
  | 0 => none
  | probes+1 =>
    if c.hashIndex slot=0 then none
    else if shimSymbolNamed c.symbols (c.hashIndex slot-1) name then some (c.hashIndex slot-1)
    else findIndexFrom c name ((slot+1)%shimSymbolHashSize) probes

def shimSymbolFindIndex (env : Env) (name : String) : Option Nat :=
  findIndexFrom (shimSymbolTable env) name (shimSymbolSlot name) shimSymbolHashSize

def shimSymbolFindAddress (env : Env) (name : String) : Nat :=
  match shimSymbolFindIndex env name with
  | none => 0
  | some i =>
    match shimSymbolAt env i with
    | none => 0
    | some symbol => symbol.address

end Kobox.Loader
