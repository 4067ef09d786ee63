import Restyle.Text

/-!
# Scripts for Neovim

The Lua programs that are run inside the editor.

`setup` registers everything at once. Each loaded buffer gets a hook of its own that runs before it is
written, and so does each buffer that comes into being later, named or not. The hook raises a flag,
sends a notification and holds the write until the flag is taken down again or too much time has
passed. `releaseSave` takes the flag down. `teardown` undoes `setup`, unless another connection has
registered itself since then: a variable names the owner.

The other two read and replace a part of a buffer, addressed by rows and byte columns from zero.

## Main definitions

* `Script`: The programs.
* `Script.source`: Their text.
-/

namespace Restyle.Neovim

/-- The name of the user command. -/
def commandName : String := "StandardFormat"

/-- The group that owns every registered hook. -/
def groupName : String := "StandardFormatter"

/-- The buffer variable that holds a write. -/
def pendingVariable : String := "standard_formatter_pending"

/-- The global variable that names the owner of the registrations. -/
def ownerVariable : String := "standard_formatter_channel"

/-- How long a write is held at most, in milliseconds. -/
def saveWait : Nat := 30000

/-- How long a request may take, in milliseconds. -/
def requestTimeout : Nat := 2000

/-- The programs that are run inside the editor. -/
inductive Script where
  /-- Register the hooks and the command; takes the channel. -/
  | setup
  /-- Undo the registration; takes the channel. -/
  | teardown
  /-- Let a held write proceed; takes the buffer. -/
  | releaseSave
  /-- The text of a range; takes the buffer, the start and the end. -/
  | getText
  /-- Replace a range; takes the buffer, the start, the end and the text. -/
  | setText
  deriving DecidableEq, Repr

namespace Script

/-- The lines of the program that registers. -/
def setupLines : List String :=
  [
    "",
    "        local chan = ...",
    "        local group = vim.api.nvim_create_augroup('" ++ groupName ++ "', \x7b clear = true \x7d)",
    "        local attached = \x7b\x7d",
    "        vim.g." ++ ownerVariable ++ " = chan",
    "",
    "        local function attach(buf)",
    "            if attached[buf] or not vim.api.nvim_buf_is_valid(buf) then",
    "                return",
    "            end",
    "            attached[buf] = true",
    "            vim.api.nvim_create_autocmd('BufWritePre', \x7b",
    "                group = group,",
    "                buffer = buf,",
    "                callback = function(ev)",
    "                    vim.b[ev.buf]." ++ pendingVariable ++ " = true",
    "                    if not pcall(vim.rpcnotify, chan, 'will_save', ev.buf) then",
    "                        vim.b[ev.buf]." ++ pendingVariable ++ " = nil",
    "                        return",
    "                    end",
    "                    vim.wait(" ++ toString saveWait ++ ", function()",
    "                        return not vim.b[ev.buf]." ++ pendingVariable,
    "                    end, 5)",
    "                    vim.b[ev.buf]." ++ pendingVariable ++ " = nil",
    "                end,",
    "            \x7d)",
    "        end",
    "",
    "        for _, buf in ipairs(vim.api.nvim_list_bufs()) do",
    "            if vim.api.nvim_buf_is_loaded(buf) then",
    "                attach(buf)",
    "            end",
    "        end",
    "",
    "        vim.api.nvim_create_autocmd(\x7b 'BufNew', 'BufAdd', 'BufReadPost', 'BufNewFile' \x7d, \x7b",
    "            group = group,",
    "            callback = function(ev) attach(ev.buf) end,",
    "        \x7d)",
    "",
    "        vim.api.nvim_create_autocmd('BufWipeout', \x7b",
    "            group = group,",
    "            callback = function(ev) attached[ev.buf] = nil end,",
    "        \x7d)",
    "",
    "        vim.api.nvim_create_autocmd('VimLeavePre', \x7b",
    "            group = group,",
    "            callback = function() vim.rpcnotify(chan, 'detach') end,",
    "        \x7d)",
    "",
    "        vim.api.nvim_create_user_command('" ++ commandName ++ "', function(opts)",
    "            vim.rpcnotify(chan, 'format', opts.range, opts.line1, opts.line2)",
    "        end, \x7b range = true, desc = 'Format with standard' \x7d)",
    "        "]

/-- The lines of the program that undoes the registration. -/
def teardownLines : List String :=
  [
    "",
    "        local chan = ...",
    "        if vim.g." ++ ownerVariable ++ " ~= chan then",
    "            return false",
    "        end",
    "        pcall(vim.api.nvim_del_augroup_by_name, '" ++ groupName ++ "')",
    "        pcall(vim.api.nvim_del_user_command, '" ++ commandName ++ "')",
    "        vim.g." ++ ownerVariable ++ " = nil",
    "        return true",
    "        "]

/-- The lines of the program that lets a held write proceed. -/
def releaseSaveLines : List String :=
  [
    "",
    "        local buf = ...",
    "        if vim.api.nvim_buf_is_valid(buf) then",
    "            vim.b[buf]." ++ pendingVariable ++ " = false",
    "        end",
    "        "]

/-- The lines of the program that reads a range. -/
def getTextLines : List String :=
  [
    "",
    "    local buf, sr, sc, er, ec = ...",
    "    return table.concat(vim.api.nvim_buf_get_text(buf, sr, sc, er, ec, \x7b\x7d), '\\n')",
    ""]

/-- The lines of the program that replaces a range. -/
def setTextLines : List String :=
  [
    "",
    "    local buf, sr, sc, er, ec, text = ...",
    "    vim.api.nvim_buf_set_text(buf, sr, sc, er, ec, vim.split(text, '\\n', \x7b plain = true \x7d))",
    ""]

/-- The lines of a program. -/
def lines : Script → List String
  | .setup => setupLines
  | .teardown => teardownLines
  | .releaseSave => releaseSaveLines
  | .getText => getTextLines
  | .setText => setTextLines

/-- The text of a program. -/
def source (s : Script) : Text :=
  ['\n'].intercalate (s.lines.map String.toList)

end Script

end Restyle.Neovim
