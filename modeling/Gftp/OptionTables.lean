import Gftp.ByteStrings

/-!
The options of the program: the tables that the modules register, in the order in which
gftp_read_config_file has them registered.
-/

namespace Gftp.OptionTables

open ByteStrings

/-- gftp_option_type_enum. -/
inductive OptionType
  | text | textcombo | textcomboedt | hidetext | int | checkbox | intcombo | float | color
  | notebook
  deriving DecidableEq

/-- The fields of gftp_config_vars that do not change. The list is that of the combo types. -/
structure OptionVar where
  key : Bytes
  otype : OptionType
  listdata : List Bytes
  comment : Option Bytes

def bare (key : String) (otype : OptionType) : OptionVar := ⟨ascii key, otype, [], none⟩

def commented (key : String) (otype : OptionType) (comment : String) : OptionVar :=
  ⟨ascii key, otype, [], some (ascii comment)⟩

def gftpSortColumns : List Bytes :=
  ["none", "file", "size", "user", "group", "datetime", "attribs"].map ascii

def gftpSortDirection : List Bytes := ["descending", "ascending"].map ascii

/-- The protocols that are shown, as gftp_read_config_file collects them. -/
def protocolList : List Bytes :=
  ["FTP", "FTPS", "HTTP", "HTTPS", "Local", "SSH2", "FSP"].map ascii

/-- gftp_global_config_vars, with IPv6. -/
def gftpGlobalConfigVars : List OptionVar := [
  bare "" .notebook,
  commented "view_program" .text
    "The default program used to view files. If this is blank, the internal file viewer will be used",
  commented "edit_program" .text "The default program used to edit files.",
  commented "max_log_window_size" .int
    "The maximum size of the log window in bytes for the GTK+ port",
  commented "remote_charsets" .text
    "This is a comma separated list of charsets to try to convert the remote messages to the current locale",
  commented "remote_lc_time" .text
    "This is the value of LC_TIME for the remote site. This is so that dates can be parsed properly in the directory listings.",
  commented "cache_ttl" .int "The number of seconds to keep cache entries before they expire.",
  commented "append_transfers" .checkbox "Append new file transfers onto existing ones",
  commented "one_transfer" .checkbox "Do only one transfer at a time?",
  commented "overwrite_default" .checkbox
    "Overwrite files by default or set to resume file transfers",
  commented "preserve_permissions" .checkbox "Preserve file permissions of transfered files",
  commented "preserve_time" .checkbox "Preserve file times of transfered files",
  commented "refresh_files" .checkbox "Refresh the listbox after each file is transfered",
  commented "sort_dirs_first" .checkbox "Put the directories first then the files",
  commented "show_hidden_files" .checkbox "Show hidden files in the listboxes",
  commented "show_trans_in_title" .checkbox "Show the file transfer status in the titlebar",
  commented "start_transfers" .checkbox
    "Automatically start the file transfers when they get queued",
  commented "cmd_in_gui" .checkbox
    "Allow entering manual commands in the GUI (functions like the text port)",
  commented "remember_last_directory" .checkbox
    "Save the last local and remote directory when the application is closed",
  commented "connect_to_remote_on_startup" .checkbox
    "Automatically connect to the remote server when the application is started.",
  bare "" .notebook,
  commented "network_timeout" .int
    "The timeout waiting for network input/output. This is NOT an idle timeout.",
  commented "retries" .int
    "The number of auto-retries to do. Set this to 0 to retry indefinitely",
  commented "sleep_time" .int "The number of seconds to wait between retries",
  commented "maxkbs" .float "The maximum KB/s a file transfer can get. (Set to 0 to disable)",
  commented "trans_blksize" .int
    "The block size that is used when transfering files. This should be a multiple of 1024.",
  { commented "default_protocol" .textcombo "This specifies the default protocol to use"
      with listdata := protocolList },
  commented "enable_ipv6" .checkbox "Enable IPv6 support",
  commented "list_dblclk_action" .int
    "This defines what will happen when you double click a file in the file listboxes. 0=View file 1=Edit file 2=Transfer file",
  commented "listbox_local_width" .int "The default width of the local files listbox",
  commented "listbox_remote_width" .int "The default width of the remote files listbox",
  commented "listbox_file_height" .int "The default height of the local/remote files listboxes",
  commented "transfer_height" .int "The default height of the transfer listbox",
  commented "log_height" .int "The default height of the logging window",
  commented "file_trans_column" .int
    "The width of the filename column in the transfer window. Set this to 0 to have this column automagically resize.",
  bare "host_value" .text,
  bare "port_value" .text,
  bare "user_value" .text,
  bare "local_startup_directory" .text,
  bare "remote_startup_directory" .text,
  { commented "local_sortcol" .intcombo "The default column to sort by"
      with listdata := gftpSortColumns },
  { commented "local_sortasds" .intcombo "Sort ascending or descending"
      with listdata := gftpSortDirection },
  { commented "remote_sortcol" .intcombo "The default column to sort by"
      with listdata := gftpSortColumns },
  { commented "remote_sortasds" .intcombo "Sort ascending or descending"
      with listdata := gftpSortDirection },
  commented "local_file_width" .int
    "The width of the filename column in the file listboxes. Set this to 0 to have this column automagically resize. Set this to -1 to disable this column",
  commented "local_size_width" .int
    "The width of the size column in the file listboxes. Set this to 0 to have this column automagically resize. Set this to -1 to disable this column",
  commented "local_user_width" .int
    "The width of the user column in the file listboxes. Set this to 0 to have this column automagically resize. Set this to -1 to disable this column",
  commented "local_group_width" .int
    "The width of the group column in the file listboxes. Set this to 0 to have this column automagically resize. Set this to -1 to disable this column",
  commented "local_date_width" .int
    "The width of the date column in the file listboxes. Set this to 0 to have this column automagically resize. Set this to -1 to disable this column",
  commented "local_attribs_width" .int
    "The width of the attribs column in the file listboxes. Set this to 0 to have this column automagically resize. Set this to -1 to disable this column",
  commented "remote_file_width" .int
    "The width of the filename column in the file listboxes. Set this to 0 to have this column automagically resize. Set this to -1 to disable this column",
  commented "remote_size_width" .int
    "The width of the size column in the file listboxes. Set this to 0 to have this column automagically resize. Set this to -1 to disable this column",
  commented "remote_user_width" .int
    "The width of the user column in the file listboxes. Set this to 0 to have this column automagically resize. Set this to -1 to disable this column",
  commented "remote_group_width" .int
    "The width of the group column in the file listboxes. Set this to 0 to have this column automagically resize. Set this to -1 to disable this column",
  commented "remote_date_width" .int
    "The width of the date column in the file listboxes. Set this to 0 to have this column automagically resize. Set this to -1 to disable this column",
  commented "remote_attribs_width" .int
    "The width of the attribs column in the file listboxes. Set this to 0 to have this column automagically resize. Set this to -1 to disable this column",
  commented "send_color" .color "The color of the commands that are sent to the server",
  commented "recv_color" .color "The color of the commands that are received from the server",
  commented "error_color" .color "The color of the error messages",
  commented "misc_color" .color "The color of the rest of the log messages"]

/-- The options of the FTP module. -/
def rfc959ConfigVars : List OptionVar := [
  bare "" .notebook,
  commented "email" .text
    "This is the password that will be used whenever you log into a remote FTP server as anonymous",
  commented "ftp_proxy_host" .text "Firewall hostname",
  commented "ftp_proxy_port" .int "Port to connect to on the firewall",
  commented "ftp_proxy_username" .text "Your firewall username",
  commented "ftp_proxy_password" .hidetext "Your firewall password",
  commented "ftp_proxy_account" .text "Your firewall account (optional)",
  commented "proxy_config" .textcomboedt
    "This specifies how your proxy server expects us to log in. You can specify a 2 character replacement string prefixed by a % that will be replaced with the proper data. The first character can be either p for proxy or h for the host of the FTP server. The second character can be u (user), p (pass), h (host), o (port) or a (account). For example, to specify the proxy user, you can you type in %pu",
  commented "ignore_pasv_address" .checkbox
    "If this is enabled, then the remote FTP server's PASV IP address field will be ignored and the host's IP address will be used instead. This is often needed for routers giving their internal rather then their external IP address in a PASV reply.",
  commented "passive_transfer" .checkbox
    "If this is enabled, then the remote FTP server will open up a port for the data connection. If you are behind a firewall, you will need to enable this. Generally, it is a good idea to keep this enabled unless you are connecting to an older FTP server that doesn't support this. If this is disabled, then gFTP will open up a port on the client side and the remote server will attempt to connect to it.",
  commented "resolve_symlinks" .checkbox
    "The remote FTP server will attempt to resolve symlinks in the directory listings. Generally, this is a good idea to leave enabled. The only time you will want to disable this is if the remote FTP server doesn't support the -L option to LIST",
  commented "ascii_transfers" .checkbox
    "If you are transfering a text file from Windows to UNIX box or vice versa, then you should enable this. Each system represents newlines differently for text files. If you are transfering from UNIX to UNIX, then it is safe to leave this off. If you are downloading binary data, you will want to disable this."]

/-- The options of the SSL engine. -/
def sslConfigVars : List OptionVar := [
  bare "" .notebook,
  commented "entropy_source" .text "SSL entropy file",
  commented "entropy_len" .int "The maximum number of bytes to seed the SSL engine with",
  commented "verify_ssl_peer" .checkbox "Verify SSL Peer"]

/-- The options of the HTTP module. -/
def rfc2068ConfigVars : List OptionVar := [
  bare "" .notebook,
  commented "http_proxy_host" .text "Firewall hostname",
  commented "http_proxy_port" .int "Port to connect to on the firewall",
  commented "http_proxy_username" .text "Your firewall username",
  commented "http_proxy_password" .hidetext "Your firewall password",
  commented "use_http11" .checkbox "Do you want to use HTTP/1.1 or HTTP/1.0"]

/-- The options of the SSH module. -/
def sshv2ConfigVars : List OptionVar := [
  bare "" .notebook,
  commented "ssh_prog_name" .text "The path to the SSH executable",
  commented "ssh_extra_params" .text "Extra parameters to pass to the SSH program",
  commented "ssh_need_userpass" .checkbox "Require a username/password for SSH connections"]

/-- gftp_options_list, when all modules are registered. -/
def gftpOptionsList : List (List OptionVar) :=
  [gftpGlobalConfigVars, rfc959ConfigVars, sslConfigVars, rfc2068ConfigVars, sshv2ConfigVars]

/-- The keys of gftp_global_options_htable. -/
def optionKeys : List Bytes := (gftpOptionsList.flatten.map OptionVar.key).filter (· ≠ [])

end Gftp.OptionTables
