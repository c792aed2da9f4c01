import ChainArchive.Schema.Layout

namespace ChainArchive.Schema

def filled (name type : String) : Column := ⟨name, type, some false, none, none⟩

def identity (name type : String) : Column := ⟨name, type, some false, some true, none⟩

def vacant (name type : String) : Column := ⟨name, type, none, none, none⟩

def preset (name type value : String) : Column := ⟨name, type, some false, none, some value⟩

def createdAt : Column := preset "created_at" "TIMESTAMP WITH TIME ZONE" "now()"

def statsTable : Table where
  name := "stats"
  sequences := []
  columns := [
    identity "key" "CHARACTER VARYING(21)",
    filled "value" "CHARACTER VARYING(64)",
    createdAt,
    preset "updated_at" "TIMESTAMP WITH TIME ZONE" "now()"]
  indexes := []

def blocksTable : Table where
  name := "blocks"
  sequences := []
  columns := [
    filled "block_id" "CHARACTER(64)",
    filled "block_num" "INTEGER",
    filled "prev_block_id" "CHARACTER(64)",
    filled "timestamp" "TIMESTAMP WITH TIME ZONE",
    filled "trx_merkle_root" "CHARACTER(64)",
    filled "trx_count" "INTEGER",
    filled "producer" "CHARACTER VARYING(21)",
    preset "pending" "BOOLEAN" "true",
    createdAt]
  indexes := [⟨"blocks_block_id_index", ["block_id"], false⟩,
    ⟨"blocks_block_num_index", ["block_num"], false⟩]

def transactionsTable : Table where
  name := "transactions"
  sequences := []
  columns := [
    filled "trx_id" "CHARACTER(64)",
    filled "seq_num" "INTEGER",
    filled "block_id" "CHARACTER(64)",
    filled "block_num" "INTEGER",
    filled "action_count" "INTEGER",
    filled "timestamp" "TIMESTAMP WITH TIME ZONE",
    filled "expiration" "TIMESTAMP WITH TIME ZONE",
    filled "max_charge" "INTEGER",
    filled "payer" "CHARACTER(53)",
    preset "pending" "BOOLEAN" "true",
    filled "type" "CHARACTER VARYING(7)",
    filled "status" "CHARACTER VARYING(9)",
    filled "signatures" "CHARACTER(120)[]",
    filled "keys" "CHARACTER(53)[]",
    filled "elapsed" "INTEGER",
    filled "charge" "INTEGER",
    vacant "suspend_name" "CHARACTER VARYING(21)",
    createdAt]
  indexes := [⟨"transactions_block_num_index", ["block_num"], false⟩]

def metasTable : Table where
  name := "metas"
  sequences := ["metas_id_seq"]
  columns := [
    ⟨"id", "INTEGER", some false, some true, some "nextval('metas_id_seq')"⟩,
    filled "key" "CHARACTER VARYING(21)",
    filled "value" "TEXT",
    filled "creator" "CHARACTER VARYING(57)",
    createdAt]
  indexes := []

def actionsTable : Table where
  name := "actions"
  sequences := []
  columns := [
    filled "block_id" "CHARACTER(64)",
    filled "block_num" "INTEGER",
    filled "trx_id" "CHARACTER VARYING(64)",
    filled "seq_num" "INTEGER",
    filled "name" "CHARACTER VARYING(13)",
    filled "domain" "CHARACTER VARYING(21)",
    filled "key" "CHARACTER VARYING(21)",
    filled "data" "JSONB",
    createdAt]
  indexes := [⟨"actions_trx_id_index", ["trx_id"], false⟩]

def domainsTable : Table where
  name := "domains"
  sequences := []
  columns := [
    identity "name" "CHARACTER VARYING(21)",
    filled "creator" "CHARACTER(53)",
    filled "issue" "JSONB",
    filled "transfer" "JSONB",
    filled "manage" "JSONB",
    filled "metas" "INTEGER[]",
    createdAt]
  indexes := [⟨"domains_creator_index", ["creator"], false⟩]

def tokensTable : Table where
  name := "tokens"
  sequences := []
  columns := [
    identity "id" "CHARACTER VARYING(42)",
    filled "domain" "CHARACTER VARYING(21)",
    filled "name" "CHARACTER VARYING(21)",
    filled "owner" "CHARACTER(53)[]",
    filled "metas" "INTEGER[]",
    createdAt]
  indexes := [⟨"tokens_owner_index", ["owner"], false⟩]

def groupsTable : Table where
  name := "groups"
  sequences := []
  columns := [
    identity "name" "CHARACTER VARYING(21)",
    filled "key" "CHARACTER(53)",
    filled "def" "JSONB",
    filled "metas" "INTEGER[]",
    createdAt]
  indexes := [⟨"groups_key_index", ["key"], false⟩]

def fungiblesTable : Table where
  name := "fungibles"
  sequences := []
  columns := [
    filled "name" "CHARACTER VARYING(21)",
    filled "sym_name" "CHARACTER VARYING(21)",
    filled "sym" "CHARACTER VARYING(21)",
    identity "sym_id" "BIGINT",
    filled "creator" "CHARACTER(53)",
    filled "issue" "JSONB",
    filled "manage" "JSONB",
    filled "metas" "INTEGER[]",
    createdAt]
  indexes := [⟨"fungibles_creator_index", ["creator"], false⟩]

/-- The running version of the layout: the stored version and checkpoint, the append-only history of
blocks, transactions and actions, metadata, and the entities that actions change. -/
def latest : Layout where
  version := "1.0.0"
  tables := [statsTable, blocksTable, transactionsTable, metasTable, actionsTable, domainsTable, tokensTable, groupsTable, fungiblesTable]

end ChainArchive.Schema
