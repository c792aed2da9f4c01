import ChainArchive.Record.Checked

namespace ChainArchive.Record

open ChainArchive.Numeral

structure NewDomain where
  name : String
  creator : String
  issue : Members
  transfer : Members
  manage : Members

def NewDomain.check : Check NewDomain :=
  record fun m =>
    NewDomain.mk <$> required "name" text m <*> required "creator" text m <*>
      required "issue" object m <*> required "transfer" object m <*> required "manage" object m

/-- Change of a domain; permissions that are not given stay. -/
structure UpdateDomain where
  name : String
  issue : Option Members
  transfer : Option Members
  manage : Option Members

def UpdateDomain.check : Check UpdateDomain :=
  record fun m =>
    UpdateDomain.mk <$> required "name" text m <*>
      defaulted "issue" none (optional object) m <*>
      defaulted "transfer" none (optional object) m <*>
      defaulted "manage" none (optional object) m

structure IssueToken where
  domain : String
  names : List String
  owner : List String

def IssueToken.check : Check IssueToken :=
  record fun m =>
    IssueToken.mk <$> required "domain" text m <*> required "names" (list text) m <*>
      required "owner" (list text) m

structure TransferToken where
  domain : String
  name : String
  receivers : List String
  memo : String

def TransferToken.check : Check TransferToken :=
  record fun m =>
    TransferToken.mk <$> required "domain" text m <*> required "name" text m <*>
      required "to" (list text) m <*> defaulted "memo" "" text m

structure DestroyToken where
  domain : String
  name : String

def DestroyToken.check : Check DestroyToken :=
  record fun m => DestroyToken.mk <$> required "domain" text m <*> required "name" text m

structure GroupDef where
  name : String
  key : String
  root : Members

def GroupDef.check : Check GroupDef :=
  record fun m =>
    GroupDef.mk <$> required "name" text m <*> required "key" text m <*> required "root" object m

structure GroupChange where
  name : String
  group : GroupDef

def GroupChange.check : Check GroupChange :=
  record fun m => GroupChange.mk <$> required "name" text m <*> required "group" GroupDef.check m

structure NewFungible where
  name : String
  symName : String
  sym : String
  creator : String
  issue : Members
  manage : Members
  totalSupply : String

def NewFungible.check : Check NewFungible :=
  record fun m =>
    NewFungible.mk <$> required "name" text m <*> required "sym_name" text m <*>
      required "sym" text m <*> required "creator" text m <*> required "issue" object m <*>
      required "manage" object m <*> defaulted "total_supply" "" text m

structure UpdateFungible where
  symId : Int
  issue : Option Members
  manage : Option Members

def UpdateFungible.check : Check UpdateFungible :=
  record fun m =>
    UpdateFungible.mk <$> required "sym_id" integer m <*>
      defaulted "issue" none (optional object) m <*> defaulted "manage" none (optional object) m

/-- Metadata for an entity that the action itself names. -/
structure AddMeta where
  key : String
  value : String
  creator : String

def AddMeta.check : Check AddMeta :=
  record fun m =>
    AddMeta.mk <$> required "key" text m <*> required "value" text m <*> required "creator" text m

end ChainArchive.Record
