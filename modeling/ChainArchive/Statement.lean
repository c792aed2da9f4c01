import ChainArchive.Server.Basic

namespace ChainArchive.Statement

def ofStats : List Plan := [
  ⟨"insert_stat",
    "INSERT INTO stats (key, value, created_at, updated_at) VALUES ($1, $2, now(), now())"⟩,
  ⟨"read_stat", "SELECT value FROM stats WHERE key = $1"⟩,
  ⟨"update_stat", "UPDATE stats SET value = $2, updated_at = now() WHERE key = $1"⟩]

def ofBlocks : List Plan := [
  ⟨"latest_block_id", "SELECT block_id FROM blocks ORDER BY block_num DESC LIMIT 1"⟩,
  ⟨"block_exists", "SELECT EXISTS(SELECT 1 FROM blocks WHERE block_id = $1)"⟩,
  ⟨"set_block_irreversible", "UPDATE blocks SET pending = false WHERE block_id = $1"⟩]

def ofDomains : List Plan := [
  ⟨"insert_domain", "
        INSERT INTO domains (name, creator, issue, transfer, manage, metas, created_at)
        VALUES ($1, $2, $3::jsonb, $4::jsonb, $5::jsonb, '\x7b\x7d', now())
    "⟩,
  ⟨"update_domain", "
        UPDATE domains SET
            issue = COALESCE($2::jsonb, issue),
            transfer = COALESCE($3::jsonb, transfer),
            manage = COALESCE($4::jsonb, manage)
        WHERE name = $1
    "⟩]

def ofTokens : List Plan := [
  ⟨"insert_token", "
        INSERT INTO tokens (id, domain, name, owner, metas, created_at)
        VALUES ($1, $2, $3, $4::text[], '\x7b\x7d', now())
    "⟩,
  ⟨"transfer_token", "UPDATE tokens SET owner = $2::text[] WHERE id = $1"⟩,
  ⟨"destroy_token", "UPDATE tokens SET owner = ARRAY[$2::text] WHERE id = $1"⟩]

def ofGroups : List Plan := [
  ⟨"insert_group", "
        INSERT INTO groups (name, key, def, metas, created_at)
        VALUES ($1, $2, $3::jsonb, '\x7b\x7d', now())
    "⟩,
  ⟨"update_group", "UPDATE groups SET def = $2::jsonb WHERE name = $1"⟩]

def ofFungibles : List Plan := [
  ⟨"insert_fungible", "
        INSERT INTO fungibles (name, sym_name, sym, sym_id, creator, issue, manage, metas, created_at)
        VALUES ($1, $2, $3, $4, $5, $6::jsonb, $7::jsonb, '\x7b\x7d', now())
    "⟩,
  ⟨"update_fungible", "
        UPDATE fungibles SET
            issue = COALESCE($2::jsonb, issue),
            manage = COALESCE($3::jsonb, manage)
        WHERE sym_id = $1
    "⟩]

def ofMetas : List Plan := [
  ⟨"insert_meta", "
        INSERT INTO metas (key, value, creator, created_at)
        VALUES ($1, $2, $3, now())
        RETURNING id
    "⟩,
  ⟨"append_domain_meta",
    "UPDATE domains SET metas = array_append(metas, $1::integer) WHERE name = $2"⟩,
  ⟨"append_token_meta",
    "UPDATE tokens SET metas = array_append(metas, $1::integer) WHERE id = $2"⟩,
  ⟨"append_group_meta",
    "UPDATE groups SET metas = array_append(metas, $1::integer) WHERE name = $2"⟩,
  ⟨"append_fungible_meta",
    "UPDATE fungibles SET metas = array_append(metas, $1::integer) WHERE sym_id = $2"⟩]

/-- Every statement of the write path, in order of registration. One that takes the result of the
statement before it takes it as its first parameter. -/
def standard : List Plan :=
  ofStats ++ ofBlocks ++ ofDomains ++ ofTokens ++ ofGroups ++ ofFungibles ++ ofMetas

def find? (statements : List Plan) (name : String) : Option Plan :=
  statements.find? (·.name == name)

end ChainArchive.Statement
